import Czmq.Ztrie.Routes

/-! A registered route that covers a path is found, unless a child before its own takes a token
first. -/

namespace Czmq.Ztrie

open List

variable {zrex : Zrex} {shrink : Nat → Nat} {rounds : Nat} {t t' : Ztrie}

/-- On the way of a route no child in front of its own takes a token, and the captures fit. -/
def Uncontested (zrex : Zrex) (t : Ztrie) : Nat → List (Nat × Node) → List (List UInt8) → Prop
  | p, (id, n) :: way, token :: rest =>
    (∃ above before after, t.nodes p = some above ∧ above.children = before ++ id :: after ∧
      ∀ b ∈ before, ∀ m, t.nodes b = some m → m.tokenType ≠ .asterisk ∧ ¬m.Covers zrex token) ∧
    n.CapturesFit zrex token ∧ Uncontested zrex t id way rest
  | _, _, _ => True

/-! ## The descent -/

def Leads (zrex : Zrex) (t : Ztrie) : Nat → List Nat → List (List UInt8) → Prop
  | p, [], tokens => tokens = [] ∧ ∃ n, t.nodes p = some n ∧ n.endpoint = true
  | _, _ :: _, [] => False
  | p, id :: way, token :: rest =>
    (rest = [] → token.head? ≠ some star) ∧
    ∃ above before after n, t.nodes p = some above ∧ above.children = before ++ id :: after ∧
      t.nodes id = some n ∧
      (∀ b ∈ before, ∃ m, t.nodes b = some m ∧ m.tokenType ≠ .asterisk ∧ ¬m.Covers zrex token) ∧
      if n.tokenType = .asterisk then n.endpoint = true
      else n.Covers zrex token ∧ n.CapturesFit zrex token ∧ Leads zrex t id way rest

lemma answers_of_leads {path : List UInt8} (hshape : Shape t) {tokens : List (List UInt8)}
    (htokens : ∀ token ∈ tokens, token ≠ [] ∧ token.length < intMax) {p start : Nat} {way : List Nat}
    (haligned : Aligned path start tokens) (h : Leads zrex t p way tokens) :
    Answers zrex path t p start tokens true := by
  induction way generalizing p start tokens with
  | nil =>
    obtain ⟨rfl, hend⟩ := h
    exact hend
  | cons id way ih =>
    cases tokens with
    | nil => exact h.elim
    | cons token rest =>
      obtain ⟨hstar, above, before, after, n, habove, hchildren, hn, hbefore, hlast⟩ := h
      obtain ⟨⟨hne, hshort⟩, hrest⟩ := forall_mem_cons.mp htokens
      obtain ⟨⟨suffix, hdrop⟩, haligned⟩ := haligned
      have hlen := int32_length_of_short hshort.le
      have hgo : ¬Stops token rest := by
        rintro (hzero | ⟨hend, hhead⟩)
        · rw [hlen, Int.natCast_eq_zero, length_eq_zero_iff] at hzero
          exact hne hzero
        · exact hstar hend hhead
      have htakes : n.Takes zrex (token ++ suffix) token.length := by
        split at hlast
        · next htype =>
          rw [Node.Takes, htype]
          trivial
        · exact Node.takes_of_covers (hshape.measured id n hn) hne hshort hlast.1
      -- the children before it leave the token to it
      have hfind : above.children.find? (takesAt zrex t (token ++ suffix) token.length) = some id := by
        rw [hchildren, find?_append, find?_eq_none.mpr, Option.none_or, find?_cons,
          takesAt_iff.mpr ⟨n, hn, htakes⟩]
        intro b hb hbt
        obtain ⟨m, hm, hasterisk, hnot⟩ := hbefore b hb
        obtain ⟨m', hm', hmt⟩ := takesAt_iff.mp hbt
        cases hm.symm.trans hm'
        exact (Node.covers_of_takes (hshape.measured b m hm) hshort.le hmt).elim hasterisk hnot
      refine ⟨above, habove, fun hstop => absurd hstop hgo, fun _ => ?_⟩
      rw [hdrop, hlen, hfind, cut_token hshort.le]
      split at hlast
      · next htype =>
        refine ⟨n, hn, fun hparam => ?_, fun _ => hlast, fun hother => absurd htype hother⟩
        cases htype.symm.trans hparam
      · next htype =>
        obtain ⟨-, hfit, hleads⟩ := hlast
        exact ⟨n, hn, hfit, fun hasterisk => absurd hasterisk htype, fun _ => ih hrest haligned hleads⟩

lemma leads_of_uncontested (hshape : Shape t) {p : Nat} {way : List (Nat × Node)}
    {tokens : List (List UInt8)} (hway : Way t p way)
    (hend : ∃ n, t.nodes (wayEnd p way) = some n ∧ n.endpoint = true)
    (hcovers : CoversAll zrex (way.map Prod.snd) tokens) (hclear : Uncontested zrex t p way tokens)
    (hstar : ∀ token ∈ tokens.getLast?, token.head? = some star → way.length < tokens.length) :
    Leads zrex t p (way.map Prod.fst) tokens := by
  induction way generalizing p tokens with
  | nil => exact ⟨hcovers, hend⟩
  | cons x way ih =>
    obtain ⟨id, n⟩ := x
    cases tokens with
    | nil => exact hcovers.elim
    | cons token rest =>
      obtain ⟨-, hn, -, hway⟩ := hway
      obtain ⟨⟨above, before, after, habove, hchildren, hbefore⟩, hfit, hclear⟩ := hclear
      rw [wayEnd_cons] at hend
      rw [map_cons, CoversAll] at hcovers
      refine ⟨?_, above, before, after, n, habove, hchildren, hn, fun b hb => ?_, ?_⟩
      · rintro rfl hhead
        have hlt := hstar token rfl hhead
        rw [length_cons, length_singleton] at hlt
        omega
      · obtain ⟨m, hm, -⟩ := hshape.linked p above habove b
          (hchildren ▸ mem_append_left _ hb)
        exact ⟨m, hm, hbefore b hb m hm⟩
      · split at hcovers
        · next htype =>
          rw [if_pos htype]
          obtain rfl := map_eq_nil_iff.mp hcovers
          obtain ⟨m, hm, hendpoint⟩ := hend
          cases hm.symm.trans hn
          exact hendpoint
        · next htype =>
          rw [if_neg htype]
          refine ⟨hcovers.1, hfit, ih hway hend hcovers.2 hclear ?_⟩
          intro last hlast hhead
          have hlast' : (token :: rest).getLast? = some last := by
            rw [getLast?_cons, Option.mem_def.mp hlast, Option.getD_some]
          exact Nat.lt_of_succ_lt_succ (hstar last hlast' hhead)

/-- In every trie reached, a registered route that covers a path, and that no child before its own
contests, is found. -/
theorem matches_complete (zrex : Zrex) {shrink : Nat → Nat}
    (hshrink : ∀ g, 1 < g → 1 ≤ shrink g ∧ shrink g < g) (rounds : Nat) {delimiter : UInt8}
    {calls : List Call} {rcs : List Int} {t : Ztrie} {path : List UInt8}
    (hrun : Machine.run (step zrex shrink rounds) (new delimiter) calls = .ok (rcs, t))
    (hpath : path ≠ [])
    (htokens : ∀ token ∈ tokens t.delimiter path, token ≠ [] ∧ token.length < intMax)
    {way : List (Nat × Node)} (hway : Way t root way)
    (hend : ∃ n, t.nodes (wayEnd root way) = some n ∧ n.endpoint = true)
    (hcovers : CoversAll zrex (way.map Prod.snd) (tokens t.delimiter path))
    (hclear : Uncontested zrex t root way (tokens t.delimiter path))
    (hstar : ∀ token ∈ (tokens t.delimiter path).getLast?, token.head? = some star →
      way.length < (tokens t.delimiter path).length) :
    ∃ t', Ztrie.matches zrex shrink rounds t path = .ok (true, t') := by
  have hshape : Shape t := Machine.run_invariant
    (fun t call rc t' hshape hstep => hshape.step hshrink hstep) (shape_new delimiter) hrun
  have hleads := leads_of_uncontested hshape hway hend hcovers hclear hstar
  obtain ⟨haligned, -⟩ : Aligned path _ (tokens t.delimiter path) ∧
      parsePath zrex shrink rounds .matching t path = _ := parsePath_descent hpath
  exact (matches_iff_answers hshape hpath).mpr (answers_of_leads hshape htokens haligned hleads)

def bothRoutes : List Call :=
  [.insertRoute [47, 97, 98, 47, 99] none false, .insertRoute [47, 123, 120, 58, 97, 125] none false]

def rootBoth : Node := { nodeInit [] 0 [] .string with children := [1, 3] }

def nodeAb : Node :=
  { nodeInit [97, 98] 2 [] .string with pathLen := 4, children := [2], parent := some root }

def nodeX : Node :=
  { nodeInit [97] 1 [[120]] .param with pathLen := 3, endpoint := true, parent := some root }

lemma run_bothRoutes :
    ∃ rcs t, Machine.run (step literals shrinkExactly 3) (new slash) bothRoutes = .ok (rcs, t) ∧
      t.delimiter = slash ∧ t.nodes root = some rootBoth ∧ t.nodes 1 = some nodeAb ∧
      t.nodes 3 = some nodeX := by
  have hview : (Machine.run (step literals shrinkExactly 3) (new slash) bothRoutes >>= fun x =>
      pure (x.2.delimiter, x.2.nodes root, x.2.nodes 1, x.2.nodes 3)) =
      .ok (slash, some rootBoth, some nodeAb, some nodeX) := by decide +kernel
  obtain ⟨⟨rcs, t⟩, hrun, hx⟩ := bind_eq_ok.mp hview
  have heq := Except.ok.inj hx
  exact ⟨rcs, t, hrun, congrArg (·.1) heq, congrArg (·.2.1) heq, congrArg (·.2.2.1) heq,
    congrArg (·.2.2.2) heq⟩

/-- The path `/xa`, which `ab` does not take. -/
theorem matches_complete_param :
    ∃ rcs t t', Machine.run (step literals shrinkExactly 3) (new slash) bothRoutes = .ok (rcs, t) ∧
      Ztrie.matches literals shrinkExactly 3 t [47, 120, 97] = .ok (true, t') := by
  obtain ⟨rcs, t, hrun, hdelim, hroot, hstring, hparam⟩ := run_bothRoutes
  have htokens : tokens t.delimiter [47, 120, 97] = [[120, 97]] := by
    rw [hdelim]
    decide
  have hway : Way t root [(3, nodeX)] := ⟨⟨rootBoth, hroot, by decide⟩, hparam, rfl, trivial⟩
  have hclear : Uncontested literals t root [(3, nodeX)] [[120, 97]] := by
    refine ⟨⟨rootBoth, [1], [], hroot, rfl, ?_⟩, fun _ => by decide, trivial⟩
    intro b hb m hm
    obtain rfl := mem_singleton.mp hb
    cases hstring.symm.trans hm
    decide
  obtain ⟨t', hmatch⟩ : ∃ t', Ztrie.matches literals shrinkExactly 3 t [47, 120, 97] = .ok (true, t') :=
    matches_complete literals shrinkExactly_spec 3 hrun (cons_ne_nil _ _) (by rw [htokens]; decide)
      hway ⟨nodeX, hparam, rfl⟩ (by rw [htokens]; exact ⟨by decide, rfl⟩) (by rw [htokens]; exact hclear)
      (by rw [htokens]; decide)
  exact ⟨rcs, t, t', hrun, hmatch⟩

/-- The path `/ab`, which `/{x:a}` covers, goes to the inner node `ab` of the other route. -/
theorem matches_contested :
    ∃ rcs t t' way, Machine.run (step literals shrinkExactly 3) (new slash) bothRoutes = .ok (rcs, t) ∧
      tokens t.delimiter [47, 97, 98] = [[97, 98]] ∧ Way t root way ∧
      (∃ n, t.nodes (wayEnd root way) = some n ∧ n.endpoint = true) ∧
      CoversAll literals (way.map Prod.snd) (tokens t.delimiter [47, 97, 98]) ∧
      Ztrie.matches literals shrinkExactly 3 t [47, 97, 98] = .ok (false, t') := by
  have hmatch : matchAfter literals bothRoutes [47, 97, 98] = .ok (slash, false) := by decide +kernel
  obtain ⟨rcs, t, t', hrun, hmatch, -⟩ := exists_of_matchAfter hmatch
  obtain ⟨rcs', t₁, hrun', hdelim, hroot, -, hparam⟩ := run_bothRoutes
  cases hrun.symm.trans hrun'
  have htokens : tokens t.delimiter [47, 97, 98] = [[97, 98]] := by
    rw [hdelim]
    decide
  refine ⟨rcs, t, t', [(3, nodeX)], hrun, htokens, ⟨⟨rootBoth, hroot, by decide⟩, hparam, rfl, trivial⟩,
    ⟨nodeX, hparam, rfl⟩, ?_, hmatch⟩
  rw [htokens]
  exact ⟨by decide, rfl⟩

end Czmq.Ztrie
