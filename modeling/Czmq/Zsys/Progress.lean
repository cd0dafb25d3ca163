import Czmq.Zsys.Zprintf

/-! How far the scanner of `s_zsys_zprintf` goes: bounds on its rounds and on its positions. -/

namespace Czmq.Zprintf

open Bytes List Zchunk

section
variable (lookup : List UInt8 → Except Fault (Option CString)) (validate : Bool)
  (fresh : Nat → UInt8) (format : CString)

def after : Nat → Option Scan
  | 0 => match new fresh none (format.1.length * 3 / 2) with
    | .ok chunk => some ⟨.findPercent, 0, [], chunk⟩
    | .error _ => none
  | n + 1 => (after n).bind fun s =>
    match round lookup validate fresh format s with
    | .ok (.inl s') => some s'
    | _ => none

def keyEnd (pos : Nat) : Nat := pos + ((format.1.drop pos).takeWhile (· != closing)).length

def keyLen (pos : Nat) : Nat := keyEnd format pos - (pos + 2)

def keyStart (pos : Nat) : Nat := if keyLen format pos = 0 then pos + 4 else pos + 2

def keyAt (pos : Nat) : List UInt8 := (format.1.drop (keyStart format pos)).take (keyLen format pos)

structure Inside (s : Scan) : Prop where
  pos : s.pos ≤ format.1.length
  key : s.state = .findKey → s.pos < format.1.length →
    keyEnd format s.pos < format.1.length ∧ s.pos + 2 ≤ keyEnd format s.pos ∧
      keyStart format s.pos + keyLen format s.pos ≤ format.1.length ∧
      ∀ value, lookup (keyAt format s.pos) = .ok (some value) →
        keyStart format s.pos + keyLen format s.pos + 1 ≤ format.1.length

/-- At most three rounds for each position and three more, and no position outside. -/
def Finishes : Prop :=
  after lookup validate fresh format (3 * format.1.length + 3) = none ∧
    ∀ n s, after lookup validate fresh format n = some s → Inside lookup format s

/-- A percent sign where the scanner stands is followed by another or by a parenthesis. A key is
closed, and an empty one followed by what is skipped with it. -/
structure Sound (s : Scan) : Prop where
  sign : s.state = .findPercent → format.1[s.pos]? = some percent →
    format.1[s.pos + 1]? = some percent ∨ format.1[s.pos + 1]? = some opening
  key : s.state = .findKey → closing ∈ format.1.drop s.pos ∧
    (format.1[s.pos + 2]? = some closing → s.pos + 4 ≤ format.1.length ∧
      ∀ value, lookup [] = .ok (some value) → s.pos + 5 ≤ format.1.length)

end

section
variable {lookup : List UInt8 → Except Fault (Option CString)} {validate : Bool}
  {fresh : Nat → UInt8} {format : CString} {s t : Scan}

/-! ## Rounds -/

variable {c : Zchunk}

lemma put_nil_eq (hlt : c.size < 2 ^ 64) (hroom : c.size ≤ c.maxSize)
    (hdata : c.size ≤ c.data.length) : put fresh c [] = .ok c := by
  have hwrite : writeAt c.data c.size [] = .ok c.data := by
    rw [writeAt_of_le hdata, written, append_nil, length_nil, Nat.add_zero,
      take_append_drop]
  rw [put, extend, length_nil, Nat.add_zero, Nat.mod_eq_of_lt hlt, grow,
    if_neg (Nat.not_lt.mpr hroom)]
  change (if c.size ≤ c.maxSize then _ else _ : Except Fault _) >>= _ = _
  rw [if_pos hroom, hwrite]
  rfl

variable {n : Nat}

lemma size_grow {c' : Zchunk} (h : c.grow fresh n = .ok c') : c'.size = c.size := by
  rw [grow] at h
  split at h
  · obtain ⟨block, -, heq⟩ := bind_eq_ok.mp h
    cases heq
    rfl
  · cases h
    rfl

lemma put_nil {c' : Zchunk} {bytes : List UInt8} (h : put fresh c bytes = .ok c') :
    put fresh c' [] = .ok c' := by
  obtain ⟨⟨n, c1⟩, hextend, heq⟩ := bind_eq_ok.mp h
  cases heq
  obtain ⟨c2, hgrow, hsize⟩ := bind_eq_ok.mp hextend
  rw [← size_grow hgrow] at hsize
  split at hsize
  · next hroom =>
    obtain ⟨block, hwrite, heq⟩ := bind_eq_ok.mp hsize
    cases heq
    rw [writeAt] at hwrite
    split at hwrite
    · next hfits =>
      cases hwrite
      refine put_nil_eq (Nat.mod_lt _ (by decide)) hroom ?_
      exact (Nat.mod_le _ _).trans (hfits.trans (length_written hfits).ge)
    · cases hwrite
  · cases hsize

inductive Moved (lookup : List UInt8 → Except Fault (Option CString)) (format : CString) (s : Scan) :
    State → Nat → Prop
  | finish (hstate : s.state = .findPercent) : Moved lookup format s .done s.pos
  | sign (hstate : s.state = .findPercent) {idx : Nat} (hle : s.pos ≤ idx)
      (hnext : format.1[idx + 1]? = some percent) : Moved lookup format s .findPercent (idx + 2)
  | opening (hstate : s.state = .findPercent) {idx : Nat} (hle : s.pos ≤ idx)
      (hidx : format.1[idx]? = some percent) (hnext : format.1[idx + 1]? = some opening) :
      Moved lookup format s .findKey idx
  | lone (hstate : s.state = .findPercent) {idx : Nat} (hidx : format.1[idx]? = some percent)
      (hsign : format.1[idx + 1]? ≠ some percent) (hopening : format.1[idx + 1]? ≠ some opening) :
      Moved lookup format s .findPercent idx
  | key (hstate : s.state = .findKey) (hend : keyEnd format s.pos < format.1.length)
      {value : CString} (hlookup : lookup (keyAt format s.pos) = .ok (some value)) :
      Moved lookup format s .findFormat (keyStart format s.pos + keyLen format s.pos + 1)
  | letter (hstate : s.state = .findFormat) : Moved lookup format s .findPercent (s.pos + 1)

variable {text : List UInt8}

lemma getElem?_length_takeWhile {c : UInt8} (h : (text.takeWhile (· != c)).length ≠ text.length) :
    text[(text.takeWhile (· != c)).length]? = some c := by
  induction text with
  | nil => exact absurd rfl h
  | cons x text ih =>
    by_cases hx : x = c
    · rw [takeWhile_cons_of_neg (by simp [hx]), hx]
      rfl
    · rw [takeWhile_cons_of_pos (by simp [hx])] at h ⊢
      exact ih fun heq => h (congrArg Nat.succ heq)

lemma moved_findPercent (hstate : s.state = .findPercent) (hs : put fresh s.chunk [] = .ok s.chunk)
    (h : findPercent fresh format s = .ok (.inl t)) :
    Moved lookup format s t.state t.pos ∧ put fresh t.chunk [] = .ok t.chunk := by
  rw [findPercent] at h
  split at h
  · obtain ⟨c, hput, heq⟩ := bind_eq_ok.mp h
    cases heq
    exact ⟨.finish hstate, put_nil hput⟩
  · next hmore =>
    have hidx := getElem?_length_takeWhile hmore
    rw [getElem?_drop] at hidx
    split at h
    · next hnext =>
      obtain ⟨c, -, h⟩ := bind_eq_ok.mp h
      obtain ⟨c', hput, heq⟩ := bind_eq_ok.mp h
      cases heq
      rw [hstate]
      exact ⟨.sign hstate (Nat.le_add_right _ _) hnext, put_nil hput⟩
    · split at h
      · next hnext =>
        obtain ⟨c, hput, heq⟩ := bind_eq_ok.mp h
        cases heq
        refine ⟨.opening hstate (Nat.le_add_right _ _) hidx hnext, ?_⟩
        rw [putSome] at hput
        split at hput
        · exact put_nil hput
        · cases hput
          exact hs
      · next hsign hopening =>
        obtain ⟨c, hput, heq⟩ := bind_eq_ok.mp h
        cases heq
        rw [hstate]
        exact ⟨.lone hstate hidx hsign hopening, put_nil hput⟩

lemma moved_findKey (hstate : s.state = .findKey) (hs : put fresh s.chunk [] = .ok s.chunk)
    (h : findKey lookup validate fresh format s = .ok (.inl t)) :
    Moved lookup format s t.state t.pos ∧ put fresh t.chunk [] = .ok t.chunk := by
  rw [findKey] at h
  split at h
  · obtain ⟨c, -, heq⟩ := bind_eq_ok.mp h
    cases heq
  · next hmore =>
    have hend : keyEnd format s.pos < format.1.length := by
      have hle := ( takeWhile_prefix (· != closing) (l := format.1.drop s.pos)).length_le
      rw [length_drop] at hmore hle
      rw [keyEnd]
      omega
    obtain ⟨⟨c, pos⟩, hskip, h⟩ := bind_eq_ok.mp h
    have hpos : pos = keyStart format s.pos ∧ put fresh c [] = .ok c := by
      rw [skipEmpty] at hskip
      split at hskip
      · next hnone =>
        obtain ⟨c', hput, heq⟩ := bind_eq_ok.mp hskip
        cases heq
        exact ⟨(if_pos hnone).symm, put_nil hput⟩
      · next hsome =>
        cases hskip
        exact ⟨(if_neg hsome).symm, hs⟩
    obtain ⟨rfl, hput⟩ := hpos
    obtain ⟨_ | value, hlookup, h⟩ := bind_eq_ok.mp h
    · obtain ⟨text, -, heq⟩ := bind_eq_ok.mp h
      cases heq
    · cases h
      exact ⟨.key hstate hend hlookup, hput⟩

lemma moved_findFormat (hstate : s.state = .findFormat)
    (h : findFormat lookup validate fresh format s = .ok (.inl t)) :
    Moved lookup format s t.state t.pos ∧ put fresh t.chunk [] = .ok t.chunk := by
  rw [findFormat] at h
  split at h
  · obtain ⟨_ | value, -, h⟩ := bind_eq_ok.mp h
    · cases h
    · obtain ⟨c, hput, heq⟩ := bind_eq_ok.mp h
      cases heq
      exact ⟨.letter hstate, put_nil hput⟩
  · obtain ⟨text, -, heq⟩ := bind_eq_ok.mp h
    cases heq

lemma moved_of_round (hs : put fresh s.chunk [] = .ok s.chunk)
    (h : round lookup validate fresh format s = .ok (.inl t)) :
    s.pos < format.1.length ∧ Moved lookup format s t.state t.pos ∧
      put fresh t.chunk [] = .ok t.chunk := by
  rw [round] at h
  split at h
  · cases h
  · next hpos =>
    refine ⟨Nat.lt_of_not_le hpos, ?_⟩
    cases hstate : s.state with
    | findPercent => exact moved_findPercent hstate hs (by simpa only [hstate] using h)
    | findKey => exact moved_findKey hstate hs (by simpa only [hstate] using h)
    | findFormat => exact moved_findFormat hstate (by simpa only [hstate] using h)
    | done =>
      rw [hstate] at h
      cases h

lemma after_induction {motive : Nat → Scan → Prop}
    (hnew : ∀ chunk, new fresh none (format.1.length * 3 / 2) = .ok chunk →
      motive 0 ⟨.findPercent, 0, [], chunk⟩)
    (hround : ∀ n s t, after lookup validate fresh format n = some s → motive n s →
      round lookup validate fresh format s = .ok (.inl t) →
        after lookup validate fresh format (n + 1) = some t → motive (n + 1) t)
    (h : after lookup validate fresh format n = some s) : motive n s := by
  induction n generalizing s with
  | zero =>
    rw [after] at h
    split at h
    · next chunk hchunk =>
      cases h
      exact hnew chunk hchunk
    · cases h
  | succ n ih =>
    have hafter := h
    obtain ⟨s', hs', ht⟩ := Option.bind_eq_some_iff.mp h
    split at ht
    · next t hok =>
      cases ht
      exact hround n s' _ hs' (ih hs') hok hafter
    · cases ht

lemma put_nil_after (h : after lookup validate fresh format n = some s) :
    put fresh s.chunk [] = .ok s.chunk := by
  refine after_induction (motive := fun _ s => put fresh s.chunk [] = .ok s.chunk) ?_ ?_ h
  · intro chunk hnew
    have hvalid := (valid_new hnew).1
    have hmax := hvalid.maxSize_lt
    exact put_nil_eq (hvalid.size_le.trans_lt (hmax.trans (by decide))) hvalid.size_le
      (hvalid.length_data ▸ hvalid.size_le)
  · intro n s t _ hs hround _
    exact (moved_of_round hs hround).2.2

lemma opening_of_findKey (h : after lookup validate fresh format n = some s)
    (hstate : s.state = .findKey) :
    format.1[s.pos]? = some percent ∧ format.1[s.pos + 1]? = some opening := by
  revert hstate
  refine after_induction (motive := fun _ s => s.state = .findKey →
    format.1[s.pos]? = some percent ∧ format.1[s.pos + 1]? = some opening) ?_ ?_ h
  · intro chunk _ hstate
    cases hstate
  · intro n s t hs _ hround _ hstate
    have hmoved := (moved_of_round (put_nil_after hs) hround).2.1
    rw [hstate] at hmoved
    generalize t.pos = pos at hmoved ⊢
    cases hmoved with
    | opening _ _ hidx hnext => exact ⟨hidx, hnext⟩

lemma lt_of_getElem?_eq_some {i : Nat} {c : UInt8} (h : text[i]? = some c) :
    i < text.length := (List.getElem?_eq_some_iff.mp h).1

lemma drop_eq_cons_of_getElem? {i : Nat} {c : UInt8} (h : text[i]? = some c) :
    text.drop i = c :: text.drop (i + 1) := by
  obtain ⟨hlt, heq⟩ := List.getElem?_eq_some_iff.mp h
  rw [drop_eq_getElem_cons hlt, heq]

lemma keyEnd_eq {pos : Nat} (hpercent : format.1[pos]? = some percent)
    (hopening : format.1[pos + 1]? = some opening) :
    keyEnd format pos = keyEnd format (pos + 2) := by
  rw [keyEnd, drop_eq_cons_of_getElem? hpercent, drop_eq_cons_of_getElem? hopening,
    takeWhile_cons_of_pos (by decide), takeWhile_cons_of_pos (by decide), keyEnd,
    Nat.add_assoc pos 1 1, length_cons, length_cons]
  omega

lemma keyEnd_lt_iff {pos : Nat} (hpos : pos ≤ format.1.length) :
    keyEnd format pos < format.1.length ↔ closing ∈ format.1.drop pos := by
  have hprefix := takeWhile_prefix (· != closing) (l := format.1.drop pos)
  have hle := hprefix.length_le
  have hself : (format.1.drop pos).takeWhile (· != closing) = format.1.drop pos ↔
      closing ∉ format.1.drop pos := by
    rw [takeWhile_eq_self_iff]
    simp only [bne_iff_ne]
    exact ⟨fun h hc => h _ hc rfl, fun h c hc heq => h (heq ▸ hc)⟩
  rw [← not_iff_not, ← hself, keyEnd]
  rw [length_drop] at hle
  constructor
  · intro h
    exact hprefix.eq_of_length (by rw [length_drop]; omega)
  · intro h
    rw [h, length_drop]
    omega

lemma keyEnd_eq_self_iff {pos : Nat} (hlt : keyEnd format pos < format.1.length) :
    keyEnd format pos = pos ↔ format.1[pos]? = some closing := by
  have hmore : ((format.1.drop pos).takeWhile (· != closing)).length ≠
      (format.1.drop pos).length := by
    rw [keyEnd] at hlt
    rw [length_drop]
    omega
  have hend := getElem?_length_takeWhile hmore
  rw [getElem?_drop] at hend
  constructor
  · intro h
    rw [keyEnd] at h
    rwa [h] at hend
  · intro h
    rw [keyEnd, drop_eq_cons_of_getElem? h]
    rfl

/-! ## The bound -/

def roundsLeft (format : CString) (s : Scan) : Nat :=
  3 * (format.1.length - s.pos) + match s.state with
    | .findPercent => 2
    | .findKey => 1
    | .findFormat | .done => 0

lemma Sound.inside (h : after lookup validate fresh format n = some s)
    (hsound : Sound lookup format s) (hpos : s.pos ≤ format.1.length) : Inside lookup format s := by
  refine ⟨hpos, fun hstate _ => ?_⟩
  obtain ⟨hpercent, hopening⟩ := opening_of_findKey h hstate
  obtain ⟨hclosing, hempty⟩ := hsound.key hstate
  have hend := (keyEnd_lt_iff hpos).mpr hclosing
  have heq := keyEnd_eq hpercent hopening
  have hge : s.pos + 2 ≤ keyEnd format (s.pos + 2) := Nat.le_add_right _ _
  refine ⟨hend, heq ▸ hge, ?_⟩
  by_cases hnone : keyEnd format (s.pos + 2) = s.pos + 2
  · have hlen : keyLen format s.pos = 0 := by rw [keyLen, heq, hnone, Nat.sub_self]
    obtain ⟨hfour, hfive⟩ := hempty ((keyEnd_eq_self_iff (heq ▸ hend)).mp hnone)
    rw [keyAt, keyStart, hlen]
    exact ⟨hfour, hfive⟩
  · have hlen : keyLen format s.pos ≠ 0 := by
      rw [keyLen]
      omega
    rw [keyStart, if_neg hlen, keyLen]
    exact ⟨by omega, fun _ _ => by omega⟩

lemma roundsLeft_lt (h : Moved lookup format s t.state t.pos) (hs : Inside lookup format s)
    (hpos : s.pos < format.1.length) (ht : Sound lookup format t) :
    t.pos ≤ format.1.length ∧ roundsLeft format t < roundsLeft format s := by
  rw [roundsLeft, roundsLeft]
  generalize hstate' : t.state = state, hpos' : t.pos = pos at h ⊢
  cases h with
  | finish hstate =>
    rw [hstate]
    exact ⟨hs.pos, by dsimp only; omega⟩
  | sign hstate hle hnext =>
    have hlt := lt_of_getElem?_eq_some hnext
    exact ⟨by omega, by dsimp only; omega⟩
  | opening hstate hle hidx =>
    have hlt := lt_of_getElem?_eq_some hidx
    rw [hstate]
    exact ⟨hlt.le, by dsimp only; omega⟩
  | lone _ hidx hsign hopening =>
    subst hpos'
    exact ((ht.sign hstate' hidx).elim hsign hopening).elim
  | key hstate hend hlookup =>
    obtain ⟨-, -, -, hnext⟩ := hs.key hstate hpos
    have hle := hnext _ hlookup
    have hstart : s.pos + 2 ≤ keyStart format s.pos := by
      rw [keyStart]
      split <;> omega
    exact ⟨hle, by dsimp only; omega⟩
  | letter hstate =>
    exact ⟨hpos, by dsimp only; omega⟩

lemma roundsLeft_add_le
    (hsound : ∀ n s, after lookup validate fresh format n = some s → Sound lookup format s)
    (h : after lookup validate fresh format n = some s) :
    s.pos ≤ format.1.length ∧ roundsLeft format s + n ≤ 3 * format.1.length + 2 := by
  refine after_induction (motive := fun n s => s.pos ≤ format.1.length ∧
    roundsLeft format s + n ≤ 3 * format.1.length + 2) ?_ ?_ h
  · intro chunk _
    exact ⟨Nat.zero_le _, le_rfl⟩
  · intro n s t hs ⟨hpos, hleft⟩ hround ht
    obtain ⟨hlt, hmoved, -⟩ := moved_of_round (put_nil_after hs) hround
    obtain ⟨hpos', hless⟩ := roundsLeft_lt hmoved ((hsound n s hs).inside hs hpos) hlt (hsound _ t ht)
    exact ⟨hpos', by omega⟩

lemma after_of_lone (h : after lookup validate fresh format n = some s)
    (hstate : s.state = .findPercent) (hpercent : format.1[s.pos]? = some percent)
    (hsign : format.1[s.pos + 1]? ≠ some percent) (hopening : format.1[s.pos + 1]? ≠ some opening)
    (k : Nat) : after lookup validate fresh format (n + k) = some s := by
  have hround : round lookup validate fresh format s = .ok (.inl s) := by
    have hdrop := drop_eq_cons_of_getElem? hpercent
    have hput := put_nil_after h
    rw [round_eq_findPercent (lt_of_getElem?_eq_some hpercent) hstate, findPercent, hdrop,
      takeWhile_cons_of_neg (by simp)]
    simp only [length_nil, if_neg hsign, if_neg hopening, hput]
    rfl
  induction k with
  | zero => exact h
  | succ k ih =>
    rw [← Nat.add_assoc, after, ih, Option.bind_some, hround]

lemma after_none {m : Nat} (h : after lookup validate fresh format m = none) (hmn : m ≤ n) :
    after lookup validate fresh format n = none := by
  induction n, hmn using Nat.le_induction with
  | base => exact h
  | succ n _ ih => rw [after, ih, Option.bind_none]

/-- The scanner finishes exactly when it can get past every percent sign and every key that it comes
to. -/
theorem finishes_iff (lookup : List UInt8 → Except Fault (Option CString)) (validate : Bool)
    (fresh : Nat → UInt8) (format : CString) :
    Finishes lookup validate fresh format ↔
      ∀ n s, after lookup validate fresh format n = some s → Sound lookup format s := by
  constructor
  · rintro ⟨hnone, hinside⟩ n s hs
    constructor
    · intro hstate hpercent
      by_contra hlone
      rw [not_or] at hlone
      have hsome := after_of_lone hs hstate hpercent hlone.1 hlone.2 (3 * format.1.length + 3)
      rw [after_none hnone (Nat.le_add_left _ _)] at hsome
      cases hsome
    · intro hstate
      obtain ⟨hpercent, hopening⟩ := opening_of_findKey hs hstate
      have heq := keyEnd_eq hpercent hopening
      obtain ⟨hend, -, hcopied, hnext⟩ :=
        (hinside n s hs).key hstate (lt_of_getElem?_eq_some hpercent)
      refine ⟨(keyEnd_lt_iff (hinside n s hs).pos).mp hend, fun hclosing => ?_⟩
      have hlen : keyLen format s.pos = 0 := by
        rw [keyLen, heq, (keyEnd_eq_self_iff (heq ▸ hend)).mpr hclosing, Nat.sub_self]
      rw [keyAt, hlen, keyStart, if_pos hlen] at hnext
      rw [keyStart, hlen] at hcopied
      exact ⟨hcopied, hnext⟩
  · intro hsound
    constructor
    · cases hend : after lookup validate fresh format (3 * format.1.length + 3) with
      | none => rfl
      | some s => exact absurd (roundsLeft_add_le hsound hend).2 (by omega)
    · intro n s hs
      exact (hsound n s hs).inside hs (roundsLeft_add_le hsound hs).1

end

/-- `"%d"`: the scanner puts nothing and stays at the percent sign. -/
theorem lone_percent_endless :
    zprintf (fun _ => 0) ⟨[37, 100], by decide⟩ .new = .error .endlessLoop ∧
      ¬ Finishes (zhashLookup .new) false (fun _ => 0) ⟨[37, 100], by decide⟩ := by
  refine ⟨by decide +kernel, ?_⟩
  rintro ⟨hnone, -⟩
  have hsome : (after (zhashLookup .new) false (fun _ => 0) ⟨[37, 100], by decide⟩
      (3 * 2 + 3)).isSome = true := by decide +kernel
  cases hsome.symm.trans (congrArg Option.isSome hnone)

end Czmq.Zprintf
