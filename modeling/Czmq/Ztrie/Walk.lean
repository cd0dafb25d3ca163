import Czmq.Ztrie.Answers

/-! In insert and lookup mode the scanner cuts a route into the same tokens, whatever is in the
trie. -/

namespace Czmq.Ztrie

variable {zrex : Zrex} {shrink : Nat → Nat} {rounds : Nat} {t t' : Ztrie}

/-- The variables of the scanner at the end of a token, and its parameter names. -/
abbrev Piece := Scan × List (List UInt8)

def pieces (delimiter : UInt8) (path : List UInt8) (stop : Nat) :
    Nat → Scan → List (List UInt8) → List Piece
  | 0, _, _ => []
  | n + 1, s, params =>
    if s.needle < stop + 1 then
      if path[s.needle]? = some delimiter ∨ s.needle = stop then
        if s.state = 0 then
          pieces delimiter path stop n
            { s with needle := s.needle + 1, beginToken := s.needle + 1, state := 2 } params
        else if s.state < 3 then
          ({ s with parent := root }, params) :: pieces delimiter path stop n
            { s with needle := s.needle + 1, beginToken := s.needle + 1, beginRegex := none } []
        else pieces delimiter path stop n { s with needle := s.needle + 1 } params
      else if s.state = 2 ∧ path[s.needle]? = some openBrace then
        pieces delimiter path stop n
          { s with needle := s.needle + 1, beginRegex := some (s.needle + 1), state := 3 } params
      else if s.state = 3 ∧ path[s.needle]? = some colon then
        pieces delimiter path stop n
          { s with needle := s.needle + 1, beginRegex := some (s.needle + 1) }
          (params ++ [cut (path.drop (s.beginRegex.getD 0)) (s.needle - s.beginRegex.getD 0)])
      else if s.state = 3 ∧ path[s.needle]? = some closeBrace then
        pieces delimiter path stop n { s with needle := s.needle + 1, state := 2 } params
      else pieces delimiter path stop n { s with needle := s.needle + 1 } params
    else []

def stopOf (delimiter : UInt8) (path : List UInt8) : Nat := (trimmed delimiter path).length

def routePieces (delimiter : UInt8) (path : List UInt8) : List Piece :=
  pieces delimiter path (stopOf delimiter path) (path.length + 2) ⟨0, 0, 0, none, root⟩ []

def walk (zrex : Zrex) (shrink : Nat → Nat) (rounds : Nat) (mode : Mode) (path : List UInt8)
    (stop : Nat) : Ztrie → Nat → List Piece → Except Fault (Option Nat × Ztrie)
  | t, id, [] => do
    let _ ← t.node id
    pure (some id, t)
  | t, id, (s, params) :: rest => do
    let x ← endToken zrex shrink rounds mode path stop { t with params := params }
      { s with parent := id }
    match x with
    | .inl (t, s) => walk zrex shrink rounds mode path stop t s.parent rest
    | .inr x => pure x

def forget (x : Option Nat × Ztrie) : Option Nat × Ztrie := (x.1, { x.2 with params := [] })

/-! ## The scanner's variables -/

structure Scan.Sane (s : Scan) : Prop where
  begun : s.state ≠ 0 → s.beginToken ≤ s.needle
  inside : s.state = 3 → ∃ b, s.beginRegex = some b ∧ b ≤ s.needle
  behind : s.state ≠ 3 → ∀ b ∈ s.beginRegex, b < s.needle

variable {s : Scan}

lemma Scan.Sane.getD_le (h : s.Sane) : s.beginRegex.getD 0 ≤ s.needle := by
  cases hb : s.beginRegex with
  | none => exact Nat.zero_le _
  | some b =>
    by_cases hstate : s.state = 3
    · obtain ⟨b', hb', hle⟩ := h.inside hstate
      cases hb.symm.trans hb'
      exact hle
    · exact (h.behind hstate b hb).le

lemma Scan.Sane.move (h : s.Sane) : Scan.Sane { s with needle := s.needle + 1 } where
  begun := fun hstate => Nat.le_succ_of_le (h.begun hstate)
  inside := fun hstate => by
    obtain ⟨b, hb, hle⟩ := h.inside hstate
    exact ⟨b, hb, Nat.le_succ_of_le hle⟩
  behind := fun hstate b hb => Nat.lt_succ_of_lt (h.behind hstate b hb)

lemma Scan.Sane.first (h : s.Sane) (hstate : s.state = 0) : Scan.Sane
    { s with needle := s.needle + 1, beginToken := s.needle + 1, state := 2 } where
  begun := fun _ => le_rfl
  inside := nofun
  behind := fun _ b hb => Nat.lt_succ_of_lt (h.behind (by rw [hstate]; decide) b hb)

lemma Scan.Sane.next (hstate : s.state < 3) (id : Nat) : Scan.Sane
    { s with needle := s.needle + 1, beginToken := s.needle + 1, beginRegex := none, parent := id } where
  begun := fun _ => le_rfl
  inside := fun h => absurd h hstate.ne
  behind := fun _ _ hb => nomatch hb

lemma Scan.Sane.openRegex (h : s.Sane) (hstate : s.state = 2) : Scan.Sane
    { s with needle := s.needle + 1, beginRegex := some (s.needle + 1), state := 3 } where
  begun := fun _ => Nat.le_succ_of_le (h.begun (by rw [hstate]; decide))
  inside := fun _ => ⟨_, rfl, le_rfl⟩
  behind := fun h => absurd rfl h

lemma Scan.Sane.name (h : s.Sane) (hstate : s.state = 3) : Scan.Sane
    { s with needle := s.needle + 1, beginRegex := some (s.needle + 1) } where
  begun := fun _ => Nat.le_succ_of_le (h.begun (by rw [hstate]; decide))
  inside := fun _ => ⟨_, rfl, le_rfl⟩
  behind := fun h => absurd hstate h

lemma Scan.Sane.closeRegex (h : s.Sane) (hstate : s.state = 3) : Scan.Sane
    { s with needle := s.needle + 1, state := 2 } where
  begun := fun _ => Nat.le_succ_of_le (h.begun (by rw [hstate]; decide))
  inside := nofun
  behind := fun _ b hb => by
    obtain ⟨b', hb', hle⟩ := h.inside hstate
    cases hb'.symm.trans hb
    exact Nat.lt_succ_of_le hle

section
variable {delimiter : UInt8} {path : List UInt8} {stop : Nat}

lemma pieces_parent (n : Nat) (s : Scan) (params : List (List UInt8)) (id : Nat) :
    pieces delimiter path stop n { s with parent := id } params =
      pieces delimiter path stop n s params := by
  induction n generalizing s params with
  | zero => rfl
  | succ n ih =>
    rw [pieces, pieces]
    have hih : ∀ (needle state begin_ : Nat) (regex : Option Nat) (params : List (List UInt8)),
        pieces delimiter path stop n ⟨needle, state, begin_, regex, id⟩ params =
          pieces delimiter path stop n ⟨needle, state, begin_, regex, s.parent⟩ params :=
      fun needle state begin_ regex params => ih ⟨needle, state, begin_, regex, s.parent⟩ params
    simp only [hih]

structure Piece.Placed (stop : Nat) (p : Piece) : Prop where
  needle_le : p.1.needle ≤ stop
  begin_le : p.1.matchToken ≤ p.1.needle
  brace : p.1.beginRegex.isSome → p.1.matchToken < p.1.needle

lemma placed_of_mem_pieces {n : Nat} {s : Scan} (hs : s.Sane) {params : List (List UInt8)}
    {p : Piece} (h : p ∈ pieces delimiter path stop n s params) : p.Placed stop := by
  induction n generalizing s params with
  | zero => cases h
  | succ n ih =>
    rw [pieces] at h
    split_ifs at h with hneedle _ hzero hstate hopen hcolon hclose
    · exact ih (hs.first hzero) h
    · rcases List.mem_cons.mp h with rfl | h
      · have hbehind := hs.behind hstate.ne
        refine ⟨Nat.le_of_lt_succ hneedle, ?_, ?_⟩
        · cases hb : s.beginRegex with
          | none => exact hs.begun hzero
          | some b => exact (hbehind b hb).le
        · intro hsome
          obtain ⟨b, hb⟩ := Option.isSome_iff_exists.mp hsome
          have hb : s.beginRegex = some b := hb
          rw [hb]
          exact hbehind b hb
      · exact ih (.next hstate s.parent) h
    · exact ih hs.move h
    · exact ih (hs.openRegex hopen.1) h
    · exact ih (hs.name hcolon.1) h
    · exact ih (hs.closeRegex hclose.1) h
    · exact ih hs.move h
    · cases h

/-! ## The loop is the walk -/

lemma nodeNew_delimiter {parent id : Nat} {text : List UInt8} {len : Int} {type : TokenType}
    (h : nodeNew zrex shrink rounds t parent text len type = .ok (id, t')) :
    t'.delimiter = t.delimiter := by
  obtain ⟨text, -, h⟩ := bind_eq_ok.mp h
  split at h
  · cases h
  · obtain ⟨above, -, h⟩ := bind_eq_ok.mp h
    obtain ⟨children, -, h⟩ := bind_eq_ok.mp h
    cases h
    rfl

variable {mode : Mode}

lemma endToken_inl (hpath : path ≠ []) {s s' : Scan} (hneedle : s.needle ≤ path.length)
    (h : endToken zrex shrink rounds mode path stop t s = .ok (.inl (t', s'))) :
    t'.delimiter = t.delimiter ∧ t'.params = [] ∧ s' = { s with
      needle := s.needle + 1, beginToken := s.needle + 1, beginRegex := none, parent := s'.parent } := by
  obtain ⟨above, -, hstep⟩ := endToken_cases hpath hneedle h
  cases hstep with
  | none t1 _ _ hx => cases hx
  | found t1 id hsame _ _ hx =>
    rcases hx with hx | hx
    · cases hx
      exact ⟨hsame.delimiter, rfl, rfl⟩
    · obtain ⟨found, hfound, -⟩ := finish_cases hx
      cases hfound
  | added t1 id text len type _ _ hnew hx =>
    cases hx
    have hdelimiter := nodeNew_delimiter hnew
    exact ⟨hdelimiter, rfl, rfl⟩

lemma finish_of_ne (hmode : mode ≠ .matching) (id : Nat) :
    finish mode t id = t.node id >>= fun _ => .ok (.inr (some id, t)) := by
  refine bind_congr fun n => ?_
  rw [if_neg fun h => hmode h.1]
  rfl

lemma untilDone_walk (hmode : mode ≠ .matching) (hpath : path ≠ [])
    (hstop : stop ≤ path.length) {n : Nat} {s : Scan} (hs : s.Sane) (hneedle : s.needle ≤ stop + 1)
    (hn : stop + 2 ≤ s.needle + n) (t : Ztrie) (params : List (List UInt8)) :
    (Loop.untilDone .endlessLoop (parseRound zrex shrink rounds mode path stop) n
        ({ t with params := params }, s)).map forget =
      (walk zrex shrink rounds mode path stop t s.parent
        (pieces t.delimiter path stop n s params)).map forget := by
  induction n generalizing t s params with
  | zero => omega
  | succ n ih =>
    rw [Loop.untilDone_succ, parseRound, pieces]
    dsimp only
    have hn' : stop + 2 ≤ s.needle + 1 + n := by omega
    rw [if_neg hmode]
    split_ifs with hin hend hzero hstate hopen hcolon hclose
    · exact ih (hs.first hzero) hin hn' t params
    · -- one token for the walk
      change Except.map forget (endToken zrex shrink rounds mode path stop
        { t with params := params } s >>= _) = Except.map forget (endToken zrex shrink rounds mode
          path stop { t with params := params } s >>= _)
      cases hx : endToken zrex shrink rounds mode path stop { t with params := params } s with
      | error e => rfl
      | ok x =>
        cases x with
        | inr x => rfl
        | inl x =>
          obtain ⟨t1, s1⟩ := x
          obtain ⟨hdelim, hparams, hs1⟩ := endToken_inl hpath (by omega) hx
          have hnext : Scan.Sane s1 := by
            rw [hs1]
            exact .next hstate s1.parent
          have hneedle1 : s1.needle = s.needle + 1 := by rw [hs1]
          have hgo := ih hnext (by omega) (by omega) t1 []
          have ht1 : { t1 with params := [] } = t1 := by rw [← hparams]
          rw [ht1, hdelim] at hgo
          change Except.map forget (Loop.untilDone _ _ n (t1, s1)) = _
          rw [hgo, hs1]
          exact congrArg (fun ps => Except.map forget (walk zrex shrink rounds mode path stop t1
            s1.parent ps)) (pieces_parent n { s with
              needle := s.needle + 1, beginToken := s.needle + 1, beginRegex := none } [] _)
    · exact ih hs.move hin hn' t params
    · exact ih (hs.openRegex hopen.1) hin hn' t params
    · have hlt : s.needle < path.length := (List.getElem?_eq_some_iff.mp hcolon.2).1
      have htext : path.drop (s.beginRegex.getD 0) ≠ [] := by
        rw [Ne, List.drop_eq_nil_iff]
        have := hs.getD_le
        omega
      rw [strndup_eq_cut htext]
      exact ih (hs.name hcolon.1) hin hn' t _
    · exact ih (hs.closeRegex hclose.1) hin hn' t params
    · exact ih hs.move hin hn' t params
    · rw [finish_of_ne hmode, walk, node, node]
      cases t.nodes s.parent <;> rfl

lemma stopOf_le (delimiter : UInt8) (path : List UInt8) : stopOf delimiter path ≤ path.length := by
  rw [stopOf, trimmed]
  split
  · exact List.length_dropLast.trans_le (Nat.sub_le ..)
  · exact le_rfl

lemma Scan.sane_start : Scan.Sane ⟨0, 0, 0, none, root⟩ :=
  ⟨fun h => absurd rfl h, nofun, fun _ _ hb => nomatch hb⟩

lemma parsePath_walk (hmode : mode ≠ .matching) (hpath : path ≠ []) (t : Ztrie) :
    (parsePath zrex shrink rounds mode t path).map forget =
      (walk zrex shrink rounds mode path (stopOf t.delimiter path) t root
        (routePieces t.delimiter path)).map forget := by
  obtain ⟨last, hlast⟩ : ∃ last, path.getLast? = some last := ⟨_, List.getLast?_eq_some_getLast hpath⟩
  have hstop : stopOf t.delimiter path =
      if last = t.delimiter then path.length - 1 else path.length := by
    rw [stopOf, trimmed, hlast]
    simp only [Option.some_inj]
    split
    · exact List.length_dropLast
    · rfl
  have hle := stopOf_le t.delimiter path
  rw [parsePath, hlast]
  dsimp only
  rw [← hstop]
  exact untilDone_walk hmode hpath hle Scan.sane_start (Nat.zero_le _) (by dsimp only; omega) t []

end

end Czmq.Ztrie
