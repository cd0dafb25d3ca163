import Czmq.Ztrie.Shape

/-! What a match of a path does: it goes down from the root, at each token to the first child that
takes it. -/

namespace Czmq.Ztrie

open List Loop Bytes

variable {zrex : Zrex} {shrink : Nat → Nat} {rounds : Nat} {t t' : Ztrie}

def tokens (delimiter : UInt8) (path : List UInt8) : List (List UInt8) :=
  let body := if path.getLast? = some delimiter then path.dropLast else path
  (body.splitOn delimiter).tail

def Node.Covers (zrex : Zrex) (n : Node) (token : List UInt8) : Prop :=
  match n.tokenType with
  | .string => n.token = token
  | .regex | .param => zrex.hits n.token token ≠ []
  | .asterisk => False

instance (zrex : Zrex) (n : Node) (token : List UInt8) : Decidable (n.Covers zrex token) :=
  match h : n.tokenType with
  | .string => decidable_of_iff (n.token = token) (by rw [Node.Covers, h])
  | .regex => decidable_of_iff (zrex.hits n.token token ≠ []) (by rw [Node.Covers, h])
  | .param => decidable_of_iff (zrex.hits n.token token ≠ []) (by rw [Node.Covers, h])
  | .asterisk => isFalse (by rw [Node.Covers, h]; exact not_false)

/-- The tokens of the nodes on a way cover those of a path; an asterisk is the last and stands for
the rest, which is not empty. -/
def CoversAll (zrex : Zrex) : List Node → List (List UInt8) → Prop
  | [], tokens => tokens = []
  | _ :: _, [] => False
  | n :: ns, token :: tokens =>
    if n.tokenType = .asterisk then ns = [] else n.Covers zrex token ∧ CoversAll zrex ns tokens

/-- A way down: each node is a child of the one before and points to it. -/
def Way (t : Ztrie) : Nat → List (Nat × Node) → Prop
  | _, [] => True
  | p, (id, n) :: way =>
    (∃ above, t.nodes p = some above ∧ id ∈ above.children) ∧ t.nodes id = some n ∧
      n.parent = some p ∧ Way t id way

def wayEnd (p : Nat) (way : List (Nat × Node)) : Nat := (way.map Prod.fst).getLastD p

/-! ## The loop in matching mode -/

def endpointAt (t : Ztrie) (id : Nat) : Except Fault (Option Nat × Ztrie) := do
  let n ← t.node id
  pure (if n.endpoint then some id else none, t)

/-- The descent as the scanner does it, with lengths cut to an `int`. -/
def descent (zrex : Zrex) (path : List UInt8) :
    Ztrie → Nat → Nat → List (List UInt8) → Except Fault (Option Nat × Ztrie)
  | t, id, _, [] => endpointAt t id
  | t, id, start, token :: rest => do
    let above ← t.node id
    if int32 token.length = 0 ∨ rest = [] ∧ token.head? = some star then pure (none, t)
    else
      let found ← matchesToken zrex t (path.drop start) (int32 token.length) above.children
      match found with
      | (none, t) => pure (none, t)
      | (some c, t) =>
        let child ← t.node c
        if child.tokenType = .asterisk then endpointAt t c
        else descent zrex path { t with params := [] } c (start + token.length + 1) rest

lemma int32_length_of_short {token : List UInt8} (hshort : token.length ≤ intMax) :
    int32 token.length = token.length := int32_of_lt (Nat.lt_succ_of_le hshort)

lemma finish_matching (t : Ztrie) (id : Nat) :
    finish .matching t id = endpointAt t id >>= fun x => .ok (.inr x) := by
  rw [finish, endpointAt]
  cases t.node id with
  | error e => rfl
  | ok n =>
    cases hn : n.endpoint with
    | true => simp [hn]; rfl
    | false => simp [hn]; rfl

section
variable {path : List UInt8} {stop : Nat}

variable {start needle id : Nat}

lemma parseRound_inside {state : Nat} (hstate : state < 2) (hneedle : needle < stop)
    (hchar : path[needle]? ≠ some t.delimiter) :
    parseRound zrex shrink rounds .matching path stop (t, ⟨needle, state, start, none, id⟩) =
      .ok (.inl (t, ⟨needle + 1, state, start, none, id⟩)) := by
  rw [parseRound, if_pos (Nat.lt_succ_of_lt hneedle), if_neg, if_neg, if_neg, if_neg]
  · rintro ⟨h, -⟩
    dsimp only at h
    omega
  · rintro ⟨h, -⟩
    dsimp only at h
    omega
  · rintro ⟨h, -⟩
    exact hstate.ne h
  · rintro (h | h)
    · exact hchar h
    · exact hneedle.ne h

lemma untilDone_inside {state k : Nat} (hstate : state < 2) (hstop : needle + k ≤ stop)
    (hchars : ∀ i < k, path[needle + i]? ≠ some t.delimiter) (n : Nat) :
    untilDone .endlessLoop (parseRound zrex shrink rounds .matching path stop) (n + k)
        (t, ⟨needle, state, start, none, id⟩) =
      untilDone .endlessLoop (parseRound zrex shrink rounds .matching path stop) n
        (t, ⟨needle + k, state, start, none, id⟩) := by
  induction k generalizing n with
  | zero => rfl
  | succ k ih =>
    have hround : parseRound zrex shrink rounds .matching path stop
        (t, ⟨needle + k, state, start, none, id⟩) = .ok (.inl (t, ⟨needle + k + 1, state, start, none, id⟩)) :=
      parseRound_inside hstate (by omega) (hchars k (Nat.lt_succ_self k))
    rw [show n + (k + 1) = (n + 1) + k by omega, ih (by omega) (fun i hi => hchars i (by omega)),
      untilDone_inl hround]
    rfl

variable {token suffix : List UInt8}

lemma endToken_matching (hdrop : path.drop start = token ++ suffix) :
    endToken zrex shrink rounds .matching path stop t ⟨start + token.length, 1, start, none, id⟩ = (do
      let above ← t.node id
      if int32 token.length = 0 ∨ start + token.length = stop ∧ token.head? = some star then pure (.inr (none, t))
      else
        let found ← matchesToken zrex t (path.drop start) (int32 token.length) above.children
        match found with
        | (none, t) => pure (.inr (none, t))
        | (some c, t) => takeChild .matching t ⟨start + token.length, 1, start, none, id⟩ c) := by
  refine bind_congr fun above => ?_
  have hlen : Scan.matchTokenLen ⟨start + token.length, 1, start, none, id⟩ =
      int32 token.length := by
    change int32 (start + token.length - start) - 0 = _
    rw [Nat.add_sub_cancel_left, Int.sub_zero]
  have hbegin : Scan.matchToken ⟨start + token.length, 1, start, none, id⟩ = start := rfl
  have hge := (int32_bounds token.length).1
  have hmax : (intMax : Int) = 2 ^ 31 - 1 := by decide
  rw [tokenAt, hlen, hbegin, if_neg (by omega)]
  by_cases hzero : int32 token.length = 0
  · rw [if_pos hzero, if_pos (.inl hzero)]
    rfl
  · have hnil : token ≠ [] := by
      rintro rfl
      exact hzero rfl
    have hchar : path[start]? = token.head? := by
      rw [← head?_drop, hdrop, head?_append_of_ne_nil _ hnil]
    rw [if_neg hzero, hchar]
    by_cases hstar : start + token.length = stop ∧ token.head? = some star
    · have hend : int32 token.length = 0 ∨
          start + token.length = stop ∧ token.head? = some star := .inr hstar
      rw [if_pos hstar, if_pos hend]
      by_cases hchildren : above.children = []
      · rw [hchildren]
        rfl
      · rw [if_neg hchildren]
        rfl
    · rw [if_neg hstar, if_neg (not_or.mpr ⟨hzero, hstar⟩)]
      change (matchesToken zrex t (path.drop start) (int32 token.length) above.children >>= _) = _
      refine bind_congr fun found => ?_
      obtain ⟨found, t1⟩ := found
      cases found <;> rfl

lemma untilDone_token (hdrop : path.drop start = token ++ suffix)
    (hle : start + token.length ≤ stop)
    (hend : path[start + token.length]? = some t.delimiter ∨ start + token.length = stop) (n : Nat) :
    untilDone .endlessLoop (parseRound zrex shrink rounds .matching path stop) (n + 1)
        (t, ⟨start + token.length, 1, start, none, id⟩) = (do
      let above ← t.node id
      if int32 token.length = 0 ∨ start + token.length = stop ∧ token.head? = some star then pure (none, t)
      else
        let found ← matchesToken zrex t (path.drop start) (int32 token.length) above.children
        match found with
        | (none, t) => pure (none, t)
        | (some c, t) =>
          let child ← t.node c
          if child.tokenType = .asterisk then endpointAt t c
          else
            untilDone .endlessLoop (parseRound zrex shrink rounds .matching path stop) n
              ({ t with params := [] },
                ⟨start + token.length + 1, 1, start + token.length + 1, none, c⟩)) := by
  have hround : parseRound zrex shrink rounds .matching path stop
      (t, ⟨start + token.length, 1, start, none, id⟩) =
        endToken zrex shrink rounds .matching path stop t ⟨start + token.length, 1, start, none, id⟩ := by
    rw [parseRound, if_pos (Nat.lt_succ_of_le hle), if_pos hend, if_neg Nat.one_ne_zero,
      if_pos (Nat.lt_of_sub_eq_succ rfl)]
  rw [untilDone_succ, hround, endToken_matching hdrop, bind_assoc]
  refine bind_congr fun above => ?_
  split
  · rfl
  · rw [bind_assoc]
    refine bind_congr fun found => ?_
    obtain ⟨found, t1⟩ := found
    cases found with
    | none => rfl
    | some c =>
      change takeChild .matching t1 _ c >>= _ = _
      rw [takeChild, bind_assoc]
      refine bind_congr fun child => ?_
      split
      · rw [finish_matching, bind_assoc]
        exact bind_pure _
      · rfl

lemma getElem?_ne_of_not_mem {c : UInt8}
    (hdrop : path.drop start = token ++ suffix) (hnot : c ∉ token) :
    ∀ i < token.length, path[start + i]? ≠ some c := by
  intro i hi hc
  rw [← getElem?_drop, hdrop, getElem?_append_left hi] at hc
  exact hnot (mem_of_getElem? hc)

lemma untilDone_descent {pre body : List UInt8} (hstop : stop ≤ path.length)
    (hbody : path.take stop = pre ++ body) {n : Nat}
    (hn : body.length + 2 ≤ n) :
    untilDone .endlessLoop (parseRound zrex shrink rounds .matching path stop) n
        (t, ⟨pre.length, 1, pre.length, none, id⟩) =
      descent zrex path t id pre.length (body.splitOn t.delimiter) := by
  obtain ⟨m, hm⟩ : ∃ m, body.length < m := ⟨body.length + 1, Nat.lt_succ_self _⟩
  induction m generalizing t pre body id n with
  | zero => cases hm
  | succ m ih =>
    have hlen : pre.length + body.length = stop := by
      rw [← length_append, ← hbody, length_take, min_eq_left hstop]
    have hdrop : path.drop pre.length = body ++ path.drop stop := by
      rw [← take_append_drop stop path, hbody]
      simp [← hlen]
    by_cases hmem : t.delimiter ∈ body
    · -- one more token before the last
      obtain ⟨token, rest, rfl, hnot⟩ := eq_append_cons_of_mem hmem
      rw [splitOn_append_cons_self_of_not_mem hnot]
      rw [length_append, length_cons] at hlen hm hn
      rw [append_assoc] at hdrop
      obtain ⟨n, rfl⟩ : ∃ k, n = k + 1 + token.length := ⟨n - 1 - token.length, by omega⟩
      have hchar : path[pre.length + token.length]? = some t.delimiter := by
        rw [← getElem?_drop, hdrop]
        simp
      rw [untilDone_inside Nat.one_lt_two (by omega) (getElem?_ne_of_not_mem hdrop hnot),
        untilDone_token hdrop (by omega) (.inl hchar)]
      refine bind_congr fun above => ?_
      have hcond : (int32 token.length = 0 ∨
            pre.length + token.length = stop ∧ token.head? = some star) ↔
          (int32 token.length = 0 ∨
            rest.splitOn t.delimiter = [] ∧ token.head? = some star) := by
        have hne : pre.length + token.length ≠ stop := by omega
        simp [hne]
      simp only [hcond]
      split
      · rfl
      · cases hfound : matchesToken zrex t (path.drop pre.length) (int32 token.length)
          above.children with
        | error e => rfl
        | ok found =>
          obtain ⟨found, t1⟩ := found
          cases found with
          | none => rfl
          | some c =>
            rw [ok_bind]
            refine bind_congr fun child => ?_
            split
            · rfl
            · have hdelim : ({ t1 with params := [] } : Ztrie).delimiter = t.delimiter :=
                (matchesToken_same hfound).1.delimiter
              have hpre : pre.length + token.length + 1 = (pre ++ token ++ [t.delimiter]).length := by
                rw [length_append, length_append, length_singleton]
              rw [hpre, ← hdelim]
              refine ih ?_ ?_ ?_
              · rw [hbody, hdelim]
                simp
              · omega
              · omega
    · -- the last token
      rw [splitOn_eq_singleton hmem]
      obtain ⟨n, rfl⟩ : ∃ k, n = k + 1 + 1 + body.length := ⟨n - 2 - body.length, by omega⟩
      rw [untilDone_inside Nat.one_lt_two hlen.le (getElem?_ne_of_not_mem hdrop hmem),
        untilDone_token hdrop hlen.le (.inr hlen)]
      refine bind_congr fun above => ?_
      simp only [hlen]
      split
      · rfl
      · refine bind_congr fun found => ?_
        obtain ⟨found, t1⟩ := found
        cases found with
        | none => rfl
        | some c =>
          refine bind_congr fun child => ?_
          split
          · rfl
          · have hround : parseRound zrex shrink rounds .matching path stop
                ({ t1 with params := [] }, ⟨stop + 1, 1, stop + 1, none, c⟩) =
                  finish .matching { t1 with params := [] } c := by
              rw [parseRound, if_neg (Nat.lt_irrefl _)]
            rw [untilDone_succ, hround, finish_matching, bind_assoc]
            exact bind_pure _

def Aligned (path : List UInt8) : Nat → List (List UInt8) → Prop
  | _, [] => True
  | start, token :: rest =>
    (∃ suffix, path.drop start = token ++ suffix) ∧ Aligned path (start + token.length + 1) rest

lemma aligned_splitOn (delimiter : UInt8) {pre body post : List UInt8} (h : path = pre ++ body ++ post) :
    Aligned path pre.length (body.splitOn delimiter) := by
  obtain ⟨m, hm⟩ : ∃ m, body.length < m := ⟨body.length + 1, Nat.lt_succ_self _⟩
  induction m generalizing pre body with
  | zero => cases hm
  | succ m ih =>
    by_cases hmem : delimiter ∈ body
    · obtain ⟨token, rest, rfl, hnot⟩ := eq_append_cons_of_mem hmem
      rw [splitOn_append_cons_self_of_not_mem hnot]
      rw [length_append, length_cons] at hm
      refine ⟨⟨delimiter :: rest ++ post, by simp [h]⟩, ?_⟩
      have hsplit : path = pre ++ token ++ [delimiter] ++ rest ++ post := by simp [h]
      have hlen : pre.length + token.length + 1 = (pre ++ token ++ [delimiter]).length := by
        rw [length_append, length_append, length_singleton]
      rw [hlen]
      exact ih hsplit (by omega)
    · rw [splitOn_eq_singleton hmem]
      exact ⟨⟨post, by simp [h]⟩, trivial⟩

lemma parseRound_first (hle : needle ≤ stop)
    (hend : path[needle]? = some t.delimiter ∨ needle = stop) :
    parseRound zrex shrink rounds .matching path stop (t, ⟨needle, 0, 0, none, root⟩) =
      .ok (.inl (t, ⟨needle + 1, 1, needle + 1, none, root⟩)) := by
  rw [parseRound, if_pos (Nat.lt_succ_of_le hle), if_pos hend]
  rfl

def firstToken (delimiter : UInt8) (body : List UInt8) : Nat :=
  ((body.splitOn delimiter).headD []).length + 1

lemma untilDone_start (hstop : stop ≤ path.length) :
    ∃ start, start = firstToken t.delimiter (path.take stop) ∧
      Aligned path start ((path.take stop).splitOn t.delimiter).tail ∧
      untilDone .endlessLoop (parseRound zrex shrink rounds .matching path stop)
          (path.length + 2) (t, ⟨0, 0, 0, none, root⟩) =
        descent zrex path t root start ((path.take stop).splitOn t.delimiter).tail := by
  obtain ⟨body, hbody⟩ : ∃ body, path.take stop = body := ⟨_, rfl⟩
  have hlen : body.length = stop := by rw [← hbody, length_take, min_eq_left hstop]
  have hdrop : path.drop 0 = body ++ path.drop stop := by
    rw [← hbody, take_append_drop]
    rfl
  rw [hbody]
  by_cases hmem : t.delimiter ∈ body
  · obtain ⟨token, rest, rfl, hnot⟩ := eq_append_cons_of_mem hmem
    rw [firstToken, splitOn_append_cons_self_of_not_mem hnot]
    rw [append_assoc] at hdrop
    rw [length_append, length_cons] at hlen
    have hsplit : path.take stop = token ++ [t.delimiter] ++ rest := by
      rw [hbody]
      simp
    refine ⟨(token ++ [t.delimiter]).length, by simp, ?_, ?_⟩
    · have hall : path = token ++ [t.delimiter] ++ rest ++ path.drop stop := by
        rw [← hsplit, take_append_drop]
      exact aligned_splitOn t.delimiter hall
    obtain ⟨n, hn⟩ : ∃ n, path.length + 2 = n + 1 + token.length := ⟨path.length + 1 - token.length, by omega⟩
    have hchar : path[0 + token.length]? = some t.delimiter := by
      rw [← getElem?_drop, hdrop]
      simp
    have hbegin : 0 + token.length + 1 = (token ++ [t.delimiter]).length := by
      rw [length_append, length_singleton, Nat.zero_add]
    rw [hn, untilDone_inside Nat.two_pos (by omega) (getElem?_ne_of_not_mem hdrop hnot),
      untilDone_inl (parseRound_first (by omega) (.inl hchar)), hbegin]
    exact untilDone_descent hstop hsplit (by omega)
  · rw [splitOn_eq_singleton hmem]
    refine ⟨_, rfl, trivial, ?_⟩
    obtain ⟨n, hn⟩ : ∃ n, path.length + 2 = n + 1 + 1 + body.length := ⟨path.length - body.length, by omega⟩
    have hround : parseRound zrex shrink rounds .matching path stop
        (t, ⟨0 + body.length + 1, 1, 0 + body.length + 1, none, root⟩) = finish .matching t root := by
      rw [parseRound, if_neg (by dsimp only; omega)]
    rw [hn, untilDone_inside Nat.two_pos (by omega) (getElem?_ne_of_not_mem hdrop hmem),
      untilDone_inl (parseRound_first (by omega) (.inr (by omega))), untilDone_succ, hround,
      finish_matching, bind_assoc]
    exact bind_pure _

def trimmed (delimiter : UInt8) (path : List UInt8) : List UInt8 :=
  if path.getLast? = some delimiter then path.dropLast else path

lemma parsePath_descent (hpath : path ≠ []) :
    Aligned path (firstToken t.delimiter (trimmed t.delimiter path)) (tokens t.delimiter path) ∧
      parsePath zrex shrink rounds .matching t path =
        descent zrex path { t with params := [] } root
          (firstToken t.delimiter (trimmed t.delimiter path)) (tokens t.delimiter path) := by
  obtain ⟨last, hlast⟩ : ∃ last, path.getLast? = some last := ⟨_, getLast?_eq_some_getLast hpath⟩
  obtain ⟨stop, hstop⟩ : ∃ stop, stop = if last = t.delimiter then path.length - 1 else path.length :=
    ⟨_, rfl⟩
  have hle : stop ≤ path.length := by
    rw [hstop]
    split
    · exact Nat.sub_le ..
    · exact le_rfl
  have htrimmed : trimmed t.delimiter path = path.take stop := by
    rw [trimmed, hlast, hstop]
    simp only [Option.some_inj]
    split
    · rw [dropLast_eq_take]
    · rw [take_length]
  have htokens : tokens t.delimiter path = ((path.take stop).splitOn t.delimiter).tail := by
    rw [← htrimmed]
    rfl
  rw [htokens, htrimmed, parsePath, hlast]
  simp only
  rw [← hstop]
  obtain ⟨start, rfl, haligned, hdescent⟩ : ∃ start, start = firstToken t.delimiter (path.take stop) ∧
      Aligned path start ((path.take stop).splitOn t.delimiter).tail ∧ _ =
        descent zrex path { t with params := [] } root start
          ((path.take stop).splitOn t.delimiter).tail :=
    untilDone_start (t := { t with params := [] }) hle
  exact ⟨haligned, hdescent⟩

end

end Czmq.Ztrie
