import Czmq.Zlist.Sort
import Czmq.Ztrie.Answers

/-! A match that succeeds has found a registered route that covers the path. -/

namespace Czmq.Ztrie

open List Machine

variable {zrex : Zrex} {shrink : Nat → Nat} {rounds : Nat} {t t' : Ztrie}

/-! ## Soundness -/

lemma covers_of_matchesToken (hshape : Shape t) {token suffix : List UInt8} (hne : token ≠ [])
    (hshort : token.length ≤ intMax) {ids : List Nat} (hlive : ∀ c ∈ ids, ∃ n, t.nodes c = some n)
    {c : Nat} (h : matchesToken zrex t (token ++ suffix) token.length ids = .ok (some c, t')) :
    ∃ n, t.nodes c = some n ∧ (n.tokenType = .asterisk ∨ n.Covers zrex token) := by
  rw [matchesToken_eq (append_ne_nil_of_left_ne_nil hne suffix) hlive] at h
  split at h
  · cases h
  · next x hfind =>
    obtain ⟨n, hn, htakes⟩ := takesAt_iff.mp (find?_some hfind)
    obtain ⟨child, -, hrest⟩ := bind_eq_ok.mp h
    obtain ⟨taken, -, hlast⟩ := bind_eq_ok.mp hrest
    cases hlast
    exact ⟨n, hn, Node.covers_of_takes (hshape.measured _ n hn) hshort htakes⟩

lemma endpoint_of_endpointAt {id e : Nat} (h : endpointAt t id = .ok (some e, t')) :
    t' = t ∧ e = id ∧ ∃ n, t.nodes id = some n ∧ n.endpoint = true := by
  obtain ⟨n, hn, hrest⟩ := bind_eq_ok.mp h
  cases hend : n.endpoint with
  | true =>
    rw [hend] at hrest
    cases hrest
    exact ⟨rfl, rfl, n, node_eq_ok.mp hn, hend⟩
  | false =>
    rw [hend] at hrest
    cases hrest

/-- An endpoint at the end of a way from a node, where the way covers the tokens. -/
def Reaches (zrex : Zrex) (t : Ztrie) (p : Nat) (tokens : List (List UInt8)) (e : Nat) : Prop :=
  ∃ way, Way t p way ∧ wayEnd p way = e ∧ (∃ n, t.nodes e = some n ∧ n.endpoint = true) ∧
    CoversAll zrex (way.map Prod.snd) tokens

lemma wayEnd_cons (p id : Nat) (n : Node) (way : List (Nat × Node)) :
    wayEnd p ((id, n) :: way) = wayEnd id way := by
  cases way <;> rfl

lemma Way.congr (hnodes : t'.nodes = t.nodes) {p : Nat} {way : List (Nat × Node)} (h : Way t p way) :
    Way t' p way := by
  induction way generalizing p with
  | nil => trivial
  | cons x way ih =>
    obtain ⟨habove, hn, hparent, hway⟩ := h
    rw [← hnodes] at habove hn
    exact ⟨habove, hn, hparent, ih hway⟩

lemma way_cons_of_same (hshape : Shape t) (hsame : Same t t') {p c : Nat} {above : Node}
    (habove : t.nodes p = some above) (hmem : c ∈ above.children) :
    ∃ n, t'.nodes c = some n ∧ ∀ way, Way t' c way → Way t' p ((c, n) :: way) := by
  obtain ⟨above', habove', hbare⟩ := hsame.exists habove
  obtain ⟨-, -, -, hchildren⟩ := Node.fields_of_bare hbare
  have hmem' : c ∈ above'.children := hchildren ▸ hmem
  obtain ⟨n, hn, hparent⟩ := (hshape.of_same hsame).linked p above' habove' c hmem'
  exact ⟨n, hn, fun way hway => ⟨⟨above', habove', hmem'⟩, hn, hparent, hway⟩⟩

lemma descent_sound {path : List UInt8} (hshape : Shape t) {tokens : List (List UInt8)}
    (hshort : ∀ token ∈ tokens, token.length ≤ intMax) {start id e : Nat}
    (haligned : Aligned path start tokens) (h : descent zrex path t id start tokens = .ok (some e, t')) :
    Same t t' ∧ Reaches zrex t' id tokens e := by
  induction tokens generalizing t id start with
  | nil =>
    obtain ⟨rfl, rfl, hend⟩ := endpoint_of_endpointAt h
    exact ⟨.refl t', [], trivial, rfl, hend, rfl⟩
  | cons token rest ih =>
    obtain ⟨above, habove, hrest⟩ := bind_eq_ok.mp h
    split at hrest
    · cases hrest
    · next hne =>
      obtain ⟨⟨suffix, hdrop⟩, haligned⟩ := haligned
      obtain ⟨⟨found, t1⟩, hfound, hgo⟩ := bind_eq_ok.mp hrest
      rw [forall_mem_cons] at hshort
      have hlen := int32_length_of_short hshort.1
      have hnil : token ≠ [] := by
        rintro rfl
        exact hne (.inl hlen)
      rw [hdrop, hlen] at hfound
      cases found with
      | none => cases hgo
      | some c =>
        obtain ⟨hsame, hmem⟩ := matchesToken_same hfound
        rw [node_eq_ok] at habove
        obtain ⟨n, hn, hcovers⟩ := covers_of_matchesToken hshape hnil hshort.1
          (hshape.live_children habove) hfound
        obtain ⟨child, hchild, hlast⟩ := bind_eq_ok.mp hgo
        rw [node_eq_ok] at hchild
        have hmem := hmem c rfl
        obtain ⟨child', hchild', hbare⟩ := hsame.exists hn
        cases hchild.symm.trans hchild'
        obtain ⟨-, htype, -, -⟩ := Node.fields_of_bare hbare
        split at hlast
        · next hstar =>
          -- an asterisk ends the descent
          obtain ⟨rfl, rfl, hend⟩ := endpoint_of_endpointAt hlast
          obtain ⟨m, hm, hway⟩ := way_cons_of_same hshape hsame habove hmem
          cases hchild.symm.trans hm
          refine ⟨hsame, [(e, child)], hway [] trivial, rfl, hend, ?_⟩
          rw [map_cons, CoversAll, if_pos hstar]
          rfl
        · next hnot =>
          have hnot' : n.tokenType ≠ .asterisk := fun h => hnot (htype.trans h)
          have hsame1 := hsame.trans (.params t1 [])
          obtain ⟨hsame2, way, hway, hwayEnd, hend, hall⟩ :=
            ih (hshape.of_same hsame1) hshort.2 haligned hlast
          have hsame' := hsame1.trans hsame2
          obtain ⟨m, hm, hcons⟩ := way_cons_of_same hshape hsame' habove hmem
          obtain ⟨m', hm', hbare'⟩ := hsame'.exists hn
          cases hm.symm.trans hm'
          obtain ⟨-, htype', -, -⟩ := Node.fields_of_bare hbare'
          refine ⟨hsame', (c, m) :: way, hcons way hway, (wayEnd_cons ..).trans hwayEnd, hend, ?_⟩
          have hnot'' : m.tokenType ≠ .asterisk := fun h => hnot' (htype'.symm.trans h)
          change CoversAll zrex (m :: way.map Prod.snd) (token :: rest)
          obtain ⟨htoken, hmtype, -, -⟩ := Node.fields_of_bare hbare'
          rw [CoversAll, if_neg hnot'', Node.Covers, htoken, hmtype]
          exact ⟨hcovers.resolve_left hnot', hall⟩

/-- In every trie reached, a match with short tokens has found an endpoint at the end of a way that
covers the path. -/
theorem matches_sound (zrex : Zrex) {shrink : Nat → Nat}
    (hshrink : ∀ g, 1 < g → 1 ≤ shrink g ∧ shrink g < g) (rounds : Nat) {delimiter : UInt8}
    {calls : List Call} {rcs : List Int} {t t' : Ztrie} {path : List UInt8}
    (hrun : run (step zrex shrink rounds) (new delimiter) calls = .ok (rcs, t))
    (hpath : path ≠ []) (hshort : ∀ token ∈ tokens t.delimiter path, token.length ≤ intMax)
    (h : Ztrie.matches zrex shrink rounds t path = .ok (true, t')) :
    ∃ id, t'.matched = some id ∧ Reaches zrex t' root (tokens t.delimiter path) id := by
  have hshape : Shape t := run_invariant
    (fun t call rc t' hshape hstep => hshape.step hshrink hstep) (shape_new delimiter) hrun
  obtain ⟨⟨found, t₁⟩, hparse, hrest⟩ := bind_eq_ok.mp h
  obtain ⟨haligned, hdescent⟩ := parsePath_descent hpath
  rw [hdescent] at hparse
  cases found with
  | none => cases hrest
  | some id =>
    cases hrest
    obtain ⟨-, way, hway, hrest⟩ := descent_sound (t := { t with params := [] })
      (hshape.congr rfl rfl) hshort haligned hparse
    have hnodes : ({ t₁ with matched := some id } : Ztrie).nodes = t₁.nodes := rfl
    exact ⟨id, rfl, way, hway.congr hnodes, hrest⟩

def literals : Zrex where
  caps := fun _ => 0
  hits := fun expression text => if expression <:+: text then [expression] else []

def matchAfter (zrex : Zrex) (calls : List Call) (path : List UInt8) : Except Fault (UInt8 × Bool) := do
  let (_, t) ← run (step zrex shrinkExactly 3) (new slash) calls
  let (found, _) ← Ztrie.matches zrex shrinkExactly 3 t path
  pure (t.delimiter, found)

lemma exists_of_matchAfter {calls : List Call} {path : List UInt8} {x : UInt8 × Bool}
    (h : matchAfter zrex calls path = .ok x) :
    ∃ rcs t t', run (step zrex shrinkExactly 3) (new slash) calls = .ok (rcs, t) ∧
      Ztrie.matches zrex shrinkExactly 3 t path = .ok (x.2, t') ∧ t.delimiter = x.1 := by
  obtain ⟨⟨rcs, t⟩, hrun, hrest⟩ := bind_eq_ok.mp h
  obtain ⟨⟨found, t'⟩, hmatch, hlast⟩ := bind_eq_ok.mp hrest
  cases hlast
  exact ⟨rcs, t, t', hrun, hmatch, rfl⟩

/-- The route `/{a}/b` and the path `/xa/b`. -/
theorem matches_sound_literal :
    ∃ rcs t t' id, run (step literals shrinkExactly 3) (new slash)
        [.insertRoute [47, 123, 97, 125, 47, 98] (some 7) false] = .ok (rcs, t) ∧
      Ztrie.matches literals shrinkExactly 3 t [47, 120, 97, 47, 98] = .ok (true, t') ∧
      t'.matched = some id ∧ Reaches literals t' root (tokens t.delimiter [47, 120, 97, 47, 98]) id := by
  have hrun : matchAfter literals [.insertRoute [47, 123, 97, 125, 47, 98] (some 7) false]
      [47, 120, 97, 47, 98] = .ok (47, true) := by decide +kernel
  obtain ⟨rcs, t, t', hrun, hmatch, hdelim⟩ := exists_of_matchAfter hrun
  have hshort : ∀ token ∈ tokens t.delimiter [47, 120, 97, 47, 98], token.length ≤ intMax := by
    rw [hdelim]
    decide
  obtain ⟨id, hid, hreaches⟩ :=
    matches_sound literals shrinkExactly_spec 3 hrun (cons_ne_nil _ _) hshort hmatch
  exact ⟨rcs, t, t', id, hrun, hmatch, hid, hreaches⟩

lemma getLast?_letters {n : Nat} (hpos : n ≠ 0) :
    (slash :: replicate n (97 : UInt8)).getLast? = some 97 := by
  rw [getLast?_cons, getLast?_replicate, if_neg hpos]
  rfl

lemma splitOn_letters (n : Nat) :
    (slash :: replicate n (97 : UInt8)).splitOn slash = [[], replicate n 97] := by
  have hnot : slash ∉ replicate n (97 : UInt8) := fun h => by
    cases eq_of_mem_replicate h
  rw [← nil_append (slash :: _), splitOn_append_cons_self_of_not_mem not_mem_nil,
    splitOn_eq_singleton hnot]

lemma tokens_letters {n : Nat} (hpos : n ≠ 0) :
    tokens slash (slash :: replicate n 97) = [replicate n 97] := by
  rw [tokens, getLast?_letters hpos, if_neg (by decide), splitOn_letters, tail_cons]

lemma coversAll_singleton {ns : List Node} {token : List UInt8} (h : CoversAll zrex ns [token]) :
    ∃ n, ns = [n] ∧ (n.tokenType = .asterisk ∨ n.Covers zrex token) := by
  cases ns with
  | nil => cases h
  | cons n ns =>
    rw [CoversAll] at h
    split at h
    · next hstar => exact ⟨n, by rw [h], .inl hstar⟩
    · obtain ⟨hcovers, hrest⟩ := h
      cases ns with
      | nil => exact ⟨n, rfl, .inr hcovers⟩
      | cons m ns => cases hrest

def rootAbove : Node := { nodeInit [] 0 [] .string with children := [1] }

def nodeA : Node := { nodeInit [97] 1 [] .string with pathLen := 3, endpoint := true, parent := some root }

section
variable (ht : t.delimiter = slash) (hroot : t.nodes root = some rootAbove)
  (hnode : t.nodes 1 = some nodeA) {n : Nat} (hn : Bytes.int32 n = 1)
include hroot hnode hn

include ht in
lemma matches_wrapped :
    Ztrie.matches zrex shrink rounds t (slash :: replicate n 97) =
      .ok (true, { t with params := [], matched := some 1 }) := by
  obtain ⟨k, rfl⟩ : ∃ k, n = k + 1 := by
    cases n with
    | zero => cases hn
    | succ k => exact ⟨k, rfl⟩
  have hstart :
      firstToken t.delimiter (trimmed t.delimiter (slash :: replicate (k + 1) 97)) = 1 := by
    rw [ht, firstToken, trimmed, getLast?_letters k.succ_ne_zero, if_neg (by decide), splitOn_letters]
    rfl
  have htokens : tokens t.delimiter (slash :: replicate (k + 1) 97) = [replicate (k + 1) 97] :=
    ht ▸ tokens_letters k.succ_ne_zero
  have hfind : matchesToken zrex { t with params := [] } (replicate (k + 1) 97) 1 [1] =
      .ok (some 1, { t with params := [] }) := by
    rw [matchesToken, node, hnode]
    rfl
  have hnil : descent zrex (slash :: replicate (k + 1) 97) { t with params := [] } 1 (1 + (k + 1) + 1) [] =
      .ok (some 1, { t with params := [] }) := by
    rw [descent, endpointAt, node, hnode]
    rfl
  rw [Ztrie.matches, (parsePath_descent (cons_ne_nil _ _)).2, htokens, hstart, descent, node, hroot,
    length_replicate, hn, ok_bind, if_neg]
  · change ((matchesToken zrex { t with params := [] } (replicate (k + 1) 97) 1 [1] >>= _) >>= _) = _
    rw [hfind, ok_bind]
    dsimp only
    rw [node, hnode]
    exact congrArg (· >>= _) hnil
  · rintro (hzero | ⟨-, hstar⟩)
    · cases hzero
    · cases hstar

end

/-- The route `/a`, and a path whose only token has `2 ^ 32 + 1` letters. -/
theorem matches_long_token :
    ∃ rcs t t', run (step literals shrinkExactly 3) (new slash)
        [.insertRoute [47, 97] none false] = .ok (rcs, t) ∧
      Ztrie.matches literals shrinkExactly 3 t (slash :: replicate (2 ^ 32 + 1) 97) = .ok (true, t') ∧
      ¬∃ id, t'.matched = some id ∧ Reaches literals t' root
        (tokens t.delimiter (slash :: replicate (2 ^ 32 + 1) 97)) id := by
  have hview : (run (step literals shrinkExactly 3) (new slash)
      [.insertRoute [47, 97] none false] >>= fun x =>
        pure (x.2.delimiter, x.2.nodes root, x.2.nodes 1)) =
      .ok (slash, some rootAbove, some nodeA) := by decide +kernel
  obtain ⟨⟨rcs, t⟩, hrun, hx⟩ := bind_eq_ok.mp hview
  obtain ⟨hdelim, hroot, hnode⟩ : t.delimiter = slash ∧ t.nodes root = some rootAbove ∧
      t.nodes 1 = some nodeA := by
    have heq := Except.ok.inj hx
    exact ⟨congrArg (·.1) heq, congrArg (·.2.1) heq, congrArg (·.2.2) heq⟩
  refine ⟨rcs, t, _, hrun, matches_wrapped hdelim hroot hnode (by decide), ?_⟩
  rintro ⟨id, hid, way, hway, hend, -, hcovers⟩
  cases hid
  rw [hdelim, tokens_letters (by decide)] at hcovers
  obtain ⟨n, hn, htype⟩ := coversAll_singleton hcovers
  obtain ⟨⟨c, m⟩, rfl, rfl⟩ := map_eq_singleton_iff.mp hn
  cases hend
  obtain ⟨-, hm, -⟩ := hway
  cases hnode.symm.trans hm
  rcases htype with hstar | hletters
  · cases hstar
  · have hlen := congrArg length hletters
    rw [length_replicate] at hlen
    cases hlen

end Czmq.Ztrie
