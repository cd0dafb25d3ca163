import Czmq.Base.Decimal
import Czmq.Fault

/-! `zuuid_set_str`. The loop reads a number with `sscanf` wherever it is not at a delimiter and
moves on by two characters, whatever `sscanf` took: blanks, a sign or a single digit. -/

namespace Czmq

open List Bytes Decimal

namespace Hex

def isUpper (c : UInt8) : Bool := 65 ≤ c && c ≤ 70

def isLower (c : UInt8) : Bool := 97 ≤ c && c ≤ 102

def isHex (c : UInt8) : Bool := isDigit c || isUpper c || isLower c

def nibble (c : UInt8) : UInt8 :=
  if isDigit c then c - 48 else if isUpper c then c - 55 else c - 87

def toUpper (c : UInt8) : UInt8 := if 97 ≤ c && c ≤ 122 then c - 32 else c

/-- `sscanf (_, "%02x", &value)`, with the byte that `value` is cut to. By the standard `"0x"`
without a digit fails; `lenient` libraries take it for a zero. -/
def sscanf (lenient : Bool) (text : List UInt8) : Option UInt8 :=
  match text.dropWhile isSpace with
  | [] => none
  | c :: rest =>
    if c = 43 ∨ c = 45 then
      match rest with
      | d :: _ => if isHex d then some (if c = 45 then 0 - nibble d else nibble d) else none
      | [] => none
    else if isHex c then
      match rest with
      | d :: _ =>
        if isHex d then some (16 * nibble c + nibble d)
        else if c = 48 ∧ (d = 120 ∨ d = 88) ∧ !lenient then none
        else some (nibble c)
      | [] => some (nibble c)
    else none

def hexChar (v : UInt8) : UInt8 := if v < 10 then 48 + v else 55 + v

def bytes : List UInt8 → List UInt8
  | c :: d :: text => (16 * nibble c + nibble d) :: bytes text
  | _ => []

section
variable {c d : UInt8}

lemma not_isSpace_of_isHex (h : isHex c = true) : isSpace c = false := by
  simp only [isHex, isDigit, isUpper, isLower, Bool.or_eq_true, Bool.and_eq_true,
    decide_eq_true_eq, UInt8.le_iff_toNat_le, UInt8.reduceToNat] at h
  rw [Bool.eq_false_iff]
  simp only [isSpace, ne_eq, Bool.or_eq_true, beq_iff_eq, Bool.and_eq_true, decide_eq_true_eq,
    ← UInt8.toNat_inj]
  change ¬ (c.toNat = 32 ∨ 9 ≤ c.toNat ∧ c.toNat ≤ 13)
  omega

lemma sscanf_pair (hc : isHex c = true) (hd : isHex d = true) (lenient : Bool)
    (rest : List UInt8) : sscanf lenient (c :: d :: rest) = some (16 * nibble c + nibble d) := by
  have hsign : ¬ (c = 43 ∨ c = 45) := by
    rintro (rfl | rfl) <;> revert hc <;> decide
  rw [sscanf, dropWhile_cons_of_neg (by rw [not_isSpace_of_isHex hc]; decide)]
  simp only [if_neg hsign, hc, hd, if_true]

lemma nibble_spec (hc : isHex c = true) :
    (nibble c).toNat < 16 ∧ hexChar (nibble c) = toUpper c := by
  have hall : ∀ n < 256, isHex (UInt8.ofNat n) = true →
      (nibble (UInt8.ofNat n)).toNat < 16 ∧
        hexChar (nibble (UInt8.ofNat n)) = toUpper (UInt8.ofNat n) := by decide +kernel
  have hspec := hall c.toNat c.toNat_lt
  rw [UInt8.ofNat_toNat] at hspec
  exact hspec hc

lemma halves {a b : UInt8} (ha : a.toNat < 16) (hb : b.toNat < 16) :
    (16 * a + b) >>> 4 = a ∧ (16 * a + b) &&& 15 = b := by
  have hsum : (16 * a + b).toNat = 16 * a.toNat + b.toNat := by
    change (16 * a.toNat % 2 ^ 8 + b.toNat) % 2 ^ 8 = _
    omega
  constructor
  · rw [← UInt8.toNat_inj, UInt8.toNat_shiftRight, hsum]
    change (16 * a.toNat + b.toNat) >>> 4 = a.toNat
    omega
  · rw [← UInt8.toNat_inj, UInt8.toNat_and, hsum]
    change (16 * a.toNat + b.toNat) &&& (2 ^ 4 - 1) = b.toNat
    rw [Nat.and_two_pow_sub_one_eq_mod]
    omega

end

end Hex

open Hex

structure Zuuid where
  uuid : List UInt8
  str : List UInt8
  canonical : Option (List UInt8)
  length_uuid : uuid.length = 16
  length_str : str.length = 32

namespace Zuuid

def isDelimiter (c : UInt8) : Bool := c == 45 || c == 123 || c == 125

def store (self : Zuuid) (n : Nat) (value c d : UInt8) : Zuuid where
  uuid := self.uuid.set n value
  str := (self.str.set (n * 2) (toUpper c)).set (n * 2 + 1) (toUpper d)
  canonical := self.canonical
  length_uuid := by rw [length_set, self.length_uuid]
  length_str := by rw [length_set, length_set, self.length_str]

def set (source : List UInt8) (h : source.length = 16) : Zuuid where
  uuid := source
  str := source.flatMap fun (val : UInt8) => [hexChar (val >>> 4), hexChar (val &&& 15)]
  canonical := none
  length_uuid := h
  length_str := by simp [h]

def scan (lenient : Bool) : List UInt8 → Nat → Zuuid → Except Fault (Int × Zuuid)
  | [], _, self => .ok (0, { self with canonical := none })
  | c :: rest, n, self =>
    if isDelimiter c then scan lenient rest n self
    else
      match sscanf lenient (c :: rest) with
      | none => .ok (-1, self)
      | some value =>
        if n < 16 then
          match rest with
          -- the second character is the terminator, and the loop goes on behind it
          | [] => .error (.outOfBounds 1)
          | d :: rest => scan lenient rest (n + 1) (self.store n value c d)
        else .ok (-1, self)

def setStr (lenient : Bool) (self : Zuuid) (source : CString) : Except Fault (Int × Zuuid) :=
  scan lenient source.1 0 self

def stripped (s : List UInt8) : List UInt8 := s.filter (!isDelimiter ·)

def Denotes (s : List UInt8) : Prop :=
  (stripped s).length = 32 ∧ ∀ c ∈ stripped s, isHex c = true

instance (s : List UInt8) : Decidable (Denotes s) := inferInstanceAs (Decidable (_ ∧ _))

def Exact (lenient : Bool) (self : Zuuid) (s : CString) : Prop :=
  ∃ rc self', setStr lenient self s = .ok (rc, self') ∧ (rc = 0 ↔ Denotes s.1) ∧
    (Denotes s.1 → self'.uuid = bytes (stripped s.1) ∧ self'.str = (stripped s.1).map toUpper)

def places : List UInt8 → List (List UInt8)
  | [] => []
  | [c] => if isDelimiter c then [] else [[c]]
  | c :: d :: rest =>
    if isDelimiter c then places (d :: rest) else (c :: d :: rest) :: places rest

def Paired (s : List UInt8) : Prop :=
  (places s).length = 16 ∧ ∀ t ∈ places s, 2 ≤ t.length ∧ ∀ c ∈ t.take 2, isHex c = true

instance (s : List UInt8) : Decidable (Paired s) := inferInstanceAs (Decidable (_ ∧ _))

def Refused (lenient : Bool) (s : List UInt8) : Prop :=
  16 < (places s).length ∨ ∃ t ∈ places s, sscanf lenient t = none

instance (lenient : Bool) (s : List UInt8) : Decidable (Refused lenient s) :=
  inferInstanceAs (Decidable (_ ∨ _))

section
variable {lenient : Bool} {s rest : List UInt8} {c d : UInt8} {n : Nat} {self self' : Zuuid}

lemma places_delimiter (hc : isDelimiter c = true) : places (c :: rest) = places rest := by
  cases rest with
  | nil => simp [places, hc]
  | cons d rest => rw [places, if_pos hc]

lemma places_cons (hc : ¬ isDelimiter c = true) :
    places (c :: rest) = (c :: rest) :: places rest.tail := by
  cases rest <;> exact if_neg hc

lemma mem_places_self (hc : ¬ isDelimiter c = true) : c :: rest ∈ places (c :: rest) := by
  rw [places_cons hc]
  exact mem_cons_self

lemma scan_refused (hn : n ≤ 16)
    (h : 16 < n + (places s).length ∨ ∃ t ∈ places s, sscanf lenient t = none) :
    ∃ self', scan lenient s n self = .ok (-1, self') := by
  fun_induction scan lenient s n self with
  | case1 n self => simp [places] at h; omega
  | case2 c rest n self hc ih =>
    rw [places_delimiter hc] at h
    exact ih hn h
  | case3 c rest n self hc hnone => exact ⟨self, rfl⟩
  | case4 c n self hc value hlt hsome =>
    -- the last place has a number, and no other follows
    rw [places_cons hc] at h
    simp [hsome, places] at h
    omega
  | case5 c n self hc value hlt d rest hsome ih =>
    rw [places_cons hc, tail_cons, length_cons] at h
    refine ih hlt ?_
    rcases h with h | ⟨t, ht, hnone⟩
    · exact .inl (by omega)
    · rcases mem_cons.mp ht with rfl | ht
      · rw [hsome] at hnone
        cases hnone
      · exact .inr ⟨t, ht, hnone⟩
  | case6 c rest n self hc value hsome hge => exact ⟨self, rfl⟩

lemma scan_accepts (hlen : n + (places s).length ≤ 16)
    (hall : ∀ t ∈ places s, sscanf lenient t ≠ none) {rc : Int}
    (h : scan lenient s n self = .ok (rc, self')) : rc = 0 := by
  fun_induction scan lenient s n self with
  | case1 n self =>
    cases h
    rfl
  | case2 c rest n self hc ih =>
    rw [places_delimiter hc] at hlen hall
    exact ih hlen hall h
  | case3 c rest n self hc hnone =>
    exact absurd hnone (hall _ (mem_places_self hc))
  | case4 c n self hc value hlt hsome => cases h
  | case5 c n self hc value hlt d rest hsome ih =>
    rw [places_cons hc, tail_cons] at hlen hall
    rw [length_cons] at hlen
    exact ih (by omega) (fun t ht => hall t (mem_cons_of_mem _ ht)) h
  | case6 c rest n self hc value hsome hge =>
    rw [places_cons hc, length_cons] at hlen
    omega

/-! ## Pairs of digits -/

lemma stripped_delimiter (hc : isDelimiter c = true) : stripped (c :: rest) = stripped rest :=
  filter_cons_of_neg (by simp [hc])

lemma stripped_cons (hc : ¬ isDelimiter c = true) : stripped (c :: rest) = c :: stripped rest :=
  filter_cons_of_pos (by simp [hc])

lemma not_isDelimiter_of_isHex (hc : isHex c = true) : ¬ isDelimiter c = true := by
  intro hd
  rw [isDelimiter, Bool.or_eq_true, Bool.or_eq_true, beq_iff_eq, beq_iff_eq, beq_iff_eq] at hd
  rcases hd with (rfl | rfl) | rfl <;> revert hc <;> decide

lemma length_stripped_le (s : List UInt8) : (stripped s).length ≤ 2 * (places s).length := by
  fun_induction places s with
  | case1 => simp [stripped]
  | case2 c hc => rw [stripped_delimiter hc]; simp [stripped]
  | case3 c hc => rw [stripped_cons hc]; simp [stripped]
  | case4 c d rest hc ih => rwa [stripped_delimiter hc]
  | case5 c d rest hc ih =>
    rw [stripped_cons hc, length_cons, length_cons]
    by_cases hd : isDelimiter d = true
    · rw [stripped_delimiter hd]; omega
    · rw [stripped_cons hd, length_cons]; omega

lemma pairs_of_count (hhex : ∀ c ∈ stripped s, isHex c = true)
    (hcount : 2 * (places s).length ≤ (stripped s).length) :
    ∀ t ∈ places s, 2 ≤ t.length ∧ ∀ c ∈ t.take 2, isHex c = true := by
  fun_induction places s with
  | case1 => exact fun t ht => absurd ht not_mem_nil
  | case2 c hc => exact fun t ht => absurd ht not_mem_nil
  | case3 c hc =>
    rw [stripped_cons hc] at hcount
    simp [stripped] at hcount
  | case4 c d rest hc ih =>
    rw [stripped_delimiter hc] at hhex hcount
    exact ih hhex hcount
  | case5 c d rest hc ih =>
    rw [stripped_cons hc] at hhex hcount
    rw [length_cons, length_cons] at hcount
    have hle := length_stripped_le rest
    by_cases hd : isDelimiter d = true
    · rw [stripped_delimiter hd] at hcount
      omega
    · rw [stripped_cons hd] at hhex hcount
      rw [length_cons] at hcount
      obtain ⟨hc', hhex⟩ := forall_mem_cons.mp hhex
      obtain ⟨hd', hhex⟩ := forall_mem_cons.mp hhex
      refine forall_mem_cons.mpr ⟨⟨by simp, ?_⟩, ih hhex (by omega)⟩
      simp [hc', hd']

lemma stripped_of_pairs (h : ∀ t ∈ places s, 2 ≤ t.length ∧ ∀ c ∈ t.take 2, isHex c = true) :
    (stripped s).length = 2 * (places s).length ∧ ∀ c ∈ stripped s, isHex c = true := by
  fun_induction places s with
  | case1 => exact ⟨rfl, fun c hc => absurd hc not_mem_nil⟩
  | case2 c hc => rw [stripped_delimiter hc]; exact ⟨rfl, fun c hc => absurd hc not_mem_nil⟩
  | case3 c hc => exact absurd (h [c] mem_cons_self).1 (by simp)
  | case4 c d rest hc ih => rw [stripped_delimiter hc]; exact ih h
  | case5 c d rest hc ih =>
    obtain ⟨⟨-, hpair⟩, hrest⟩ := forall_mem_cons.mp h
    have hd : isHex d = true := hpair d (by simp)
    obtain ⟨hlen, hhex⟩ := ih hrest
    rw [stripped_cons hc, stripped_cons (not_isDelimiter_of_isHex hd)]
    refine ⟨?_, forall_mem_cons.mpr ⟨hpair c (by simp), forall_mem_cons.mpr ⟨hd, hhex⟩⟩⟩
    simp only [length_cons]
    omega

lemma take_set_succ {α : Type} {l : List α} {i : Nat} (h : i < l.length) (a : α) :
    (l.set i a).take (i + 1) = l.take i ++ [a] := by
  rw [take_succ_eq_append_getElem (by rw [length_set]; exact h), getElem_set_self,
    take_set_of_le (le_refl i)]

lemma scan_pairs (hn : n + (places s).length = 16)
    (h : ∀ t ∈ places s, 2 ≤ t.length ∧ ∀ c ∈ t.take 2, isHex c = true) :
    ∃ self', scan lenient s n self = .ok (0, self') ∧
      self'.uuid = self.uuid.take n ++ bytes (stripped s) ∧
      self'.str = self.str.take (n * 2) ++ (stripped s).map toUpper ∧ self'.canonical = none := by
  fun_induction scan lenient s n self with
  | case1 n self =>
    have huuid := self.length_uuid
    have hstr := self.length_str
    obtain rfl : n = 16 := hn
    refine ⟨_, rfl, ?_, ?_, rfl⟩
    · rw [take_of_length_le huuid.le]
      simp [stripped, bytes]
    · rw [take_of_length_le hstr.le]
      simp [stripped]
  | case2 c rest n self hc ih =>
    rw [places_delimiter hc] at hn h
    rw [stripped_delimiter hc]
    exact ih hn h
  | case3 c rest n self hc hnone =>
    obtain ⟨hlen, hpair⟩ := h _ (mem_places_self hc)
    cases rest with
    | nil => simp at hlen
    | cons d rest =>
      rw [sscanf_pair (hpair c (by simp)) (hpair d (by simp))] at hnone
      cases hnone
  | case4 c n self hc value hlt hsome =>
    exact absurd (h [c] (mem_places_self hc)).1 (by simp)
  | case5 c n self hc value hlt d rest hsome ih =>
    rw [places_cons hc, tail_cons] at hn h
    rw [length_cons] at hn
    obtain ⟨⟨-, hpair⟩, hrest⟩ := forall_mem_cons.mp h
    have hc' : isHex c = true := hpair c (by simp)
    have hd' : isHex d = true := hpair d (by simp)
    obtain ⟨self', he, huuid, hstr, hnone⟩ := ih (by omega) hrest
    obtain rfl : 16 * nibble c + nibble d = value :=
      Option.some.inj ((sscanf_pair hc' hd' lenient rest).symm.trans hsome)
    refine ⟨self', he, ?_, ?_, hnone⟩
    · rw [huuid, store, take_set_succ (by rw [self.length_uuid]; exact hlt),
        stripped_cons hc, stripped_cons (not_isDelimiter_of_isHex hd'),
        append_assoc]
      rfl
    · have hlen := self.length_str
      rw [hstr, store, Nat.succ_mul, take_set_succ (by rw [length_set]; omega),
        take_set_succ (by omega), stripped_cons hc,
        stripped_cons (not_isDelimiter_of_isHex hd'), append_assoc, append_assoc]
      rfl
  | case6 c rest n self hc value hsome hge =>
    rw [places_cons hc, length_cons] at hn
    omega

end

lemma bytes_spec {k : Nat} {text : List UInt8} (hhex : ∀ c ∈ text, isHex c = true)
    (hlen : text.length = 2 * k) :
    (bytes text).length = k ∧
      (bytes text).flatMap (fun (val : UInt8) => [hexChar (val >>> 4), hexChar (val &&& 15)]) =
        text.map toUpper := by
  induction k generalizing text with
  | zero =>
    obtain rfl : text = [] := eq_nil_of_length_eq_zero hlen
    exact ⟨rfl, rfl⟩
  | succ k ih =>
    match text with
    | [] => simp at hlen
    | [_] => simp only [length_singleton] at hlen; omega
    | c :: d :: text =>
      obtain ⟨hc, hhex⟩ := forall_mem_cons.mp hhex
      obtain ⟨hd, hhex⟩ := forall_mem_cons.mp hhex
      obtain ⟨hclt, hchar⟩ := nibble_spec hc
      obtain ⟨hdlt, hdhar⟩ := nibble_spec hd
      obtain ⟨hhigh, hlow⟩ := halves hclt hdlt
      obtain ⟨hlen', htext⟩ := ih hhex (by simp only [length_cons] at hlen; omega)
      rw [bytes, length_cons, hlen', flatMap_cons, htext, hhigh, hlow, hchar, hdhar]
      exact ⟨rfl, rfl⟩

lemma denotes_of_paired {s : List UInt8} (h : Paired s) : Denotes s := by
  obtain ⟨hlen, hhex⟩ := stripped_of_pairs h.2
  exact ⟨by rw [hlen, h.1], hhex⟩

lemma setStr_of_paired (lenient : Bool) (self : Zuuid) {s : CString} (h : Paired s.1) :
    ∃ hlen, setStr lenient self s = .ok (0, set (bytes (stripped s.1)) hlen) := by
  obtain ⟨hcount, hhex⟩ := denotes_of_paired h
  obtain ⟨hlen, htext⟩ := bytes_spec (k := 16) hhex hcount
  have hscan : ∃ self', scan lenient s.1 0 self = .ok (0, self') ∧
      self'.uuid = self.uuid.take 0 ++ bytes (stripped s.1) ∧
      self'.str = self.str.take (0 * 2) ++ (stripped s.1).map toUpper ∧ self'.canonical = none :=
    scan_pairs (by rw [Nat.zero_add]; exact h.1) h.2
  obtain ⟨⟨uuid, str, canonical, _, _⟩, hscan, rfl, rfl, rfl⟩ := hscan
  refine ⟨hlen, hscan.trans ?_⟩
  simp only [set, htext]
  rfl

/-- A text is parsed as meant exactly when it is sixteen pairs of digits, or is no UUID and has a
place too many or one without a number. -/
theorem exact_iff (lenient : Bool) (self : Zuuid) (s : CString) :
    Exact lenient self s ↔ Paired s.1 ∨ (¬ Denotes s.1 ∧ Refused lenient s.1) := by
  constructor
  · rintro ⟨rc, self', hset, hrc, -⟩
    by_cases hrefused : Refused lenient s.1
    · have hscan : ∃ self', scan lenient s.1 0 self = .ok (-1, self') :=
        scan_refused (by omega) (by rw [Nat.zero_add]; exact hrefused)
      obtain ⟨self₁, hscan⟩ := hscan
      cases hset.symm.trans hscan
      exact .inr ⟨fun h => absurd (hrc.mpr h) (by decide), hrefused⟩
    · simp only [Refused, not_or, not_lt, not_exists, not_and] at hrefused
      obtain rfl := scan_accepts (by rw [Nat.zero_add]; exact hrefused.1) hrefused.2 hset
      have hdenotes := hrc.mp rfl
      have hle := length_stripped_le s
      have hcount := hdenotes.1
      exact .inl ⟨by omega, pairs_of_count hdenotes.2 (by omega)⟩
  · rintro (hpaired | ⟨hnot, hrefused⟩)
    · have hdenotes := denotes_of_paired hpaired
      obtain ⟨hlen, hset⟩ := setStr_of_paired lenient self hpaired
      exact ⟨0, _, hset, ⟨fun _ => hdenotes, fun _ => rfl⟩,
        fun _ => ⟨rfl, (bytes_spec (k := 16) hdenotes.2 hdenotes.1).2⟩⟩
    · have hscan : ∃ self', scan lenient s.1 0 self = .ok (-1, self') :=
        scan_refused (by omega) (by rw [Nat.zero_add]; exact hrefused)
      obtain ⟨self', hscan⟩ := hscan
      exact ⟨-1, self', hscan, ⟨fun h => absurd h (by decide), fun h => absurd h hnot⟩,
        fun h => absurd h hnot⟩

/-! ## Texts that are refused -/

def toLower (c : UInt8) : UInt8 := if 65 ≤ c && c ≤ 90 then c + 32 else c

/-- `zuuid_str_canonical`, which is written anew from `str` in every call. -/
def strCanonical (self : Zuuid) : List UInt8 :=
  (self.str.take 8 ++ 45 :: (self.str.drop 8).take 4 ++ 45 :: (self.str.drop 12).take 4 ++
    45 :: (self.str.drop 16).take 4 ++ 45 :: (self.str.drop 20).take 12).map toLower

/-- The places, at most `m`, from which a number is stored. -/
def stored (lenient : Bool) (m : Nat) (s : List UInt8) : List (List UInt8) :=
  ((places s).takeWhile fun t => (sscanf lenient t).isSome).take m

def values (lenient : Bool) (m : Nat) (s : List UInt8) : List UInt8 :=
  (stored lenient m s).filterMap (sscanf lenient)

def texts (lenient : Bool) (m : Nat) (s : List UInt8) : List UInt8 :=
  (stored lenient m s).flatMap fun t => (t.take 2).map toUpper

def overlay (l : List UInt8) (n : Nat) (xs : List UInt8) : List UInt8 :=
  l.take n ++ (xs ++ l.drop (n + xs.length))

lemma overlay_nil (l : List UInt8) (n : Nat) : overlay l n [] = l := take_append_drop n l

lemma overlay_set {l xs : List UInt8} {n : Nat} (hn : n < l.length) (x : UInt8) :
    overlay (l.set n x) (n + 1) xs = overlay l n (x :: xs) := by
  rw [overlay, take_set_succ hn, drop_set_of_lt (by omega), overlay, append_assoc, length_cons,
    Nat.add_right_comm, ← Nat.add_assoc]
  rfl

lemma overlay_eq_self_iff {l xs : List UInt8} : overlay l 0 xs = l ↔ xs <+: l := by
  rw [overlay, take_zero, nil_append, Nat.zero_add, prefix_iff_eq_append]

lemma scan_writes {lenient : Bool} {s : List UInt8} {n : Nat} {self self' : Zuuid}
    (h : scan lenient s n self = .ok (-1, self')) :
    self'.uuid = overlay self.uuid n (values lenient (16 - n) s) ∧
      self'.str = overlay self.str (n * 2) (texts lenient (16 - n) s) := by
  unfold values texts stored
  fun_induction scan lenient s n self with
  | case1 n self => cases h
  | case2 c rest n self hc ih =>
    rw [places_delimiter hc]
    exact ih h
  | case3 c rest n self hc hnone =>
    cases h
    rw [places_cons hc, takeWhile_cons_of_neg (by simp [hnone]), take_nil]
    exact ⟨(overlay_nil ..).symm, (overlay_nil ..).symm⟩
  | case4 c n self hc value hlt hsome => cases h
  | case5 c n self hc value hlt d rest hsome ih =>
    obtain ⟨huuid, hstr⟩ := ih h
    have hu := self.length_uuid
    have hs := self.length_str
    rw [places_cons hc, takeWhile_cons_of_pos (by simp [hsome]),
      show 16 - n = 16 - (n + 1) + 1 by omega, take_succ_cons, filterMap_cons_some hsome,
      flatMap_cons, huuid, hstr, store]
    refine ⟨overlay_set (by omega) value, ?_⟩
    rw [Nat.add_one_mul, overlay_set (by rw [length_set]; omega), overlay_set (by omega)]
    rfl
  | case6 c rest n self hc value hsome hge =>
    cases h
    rw [show 16 - n = 0 by omega, take_zero]
    exact ⟨(overlay_nil ..).symm, (overlay_nil ..).symm⟩

/-- A call that fails changes nothing exactly when what it stored was there before. -/
theorem setStr_unchanged_iff {lenient : Bool} {self self' : Zuuid} {s : CString}
    (h : setStr lenient self s = .ok (-1, self')) :
    self'.uuid = self.uuid ∧ self'.str = self.str ∧ self'.strCanonical = self.strCanonical ↔
      values lenient 16 s.1 <+: self.uuid ∧ texts lenient 16 s.1 <+: self.str := by
  obtain ⟨huuid, hstr⟩ := scan_writes h
  rw [← overlay_eq_self_iff, ← overlay_eq_self_iff]
  refine ⟨fun ⟨hu, hs, _⟩ => ⟨huuid.symm.trans hu, hstr.symm.trans hs⟩, fun ⟨hu, hs⟩ => ?_⟩
  have hsame : self'.str = self.str := hstr.trans hs
  exact ⟨huuid.trans hu, hsame, by rw [strCanonical, hsame, strCanonical]⟩

def blank : Zuuid := ⟨replicate 16 0, replicate 32 48, none, rfl, rfl⟩

example : Paired ("\x7b8CB3E9A9-649B-4BEF-8DE2-25E9C2CEBB38\x7d".toList.map
    fun c => UInt8.ofNat c.toNat) := by decide +kernel

/-- The text `AB` is accepted with two digits, and after `A` the loop goes on behind the terminator.
-/
theorem setStr_short : (∃ self', setStr false blank ⟨[65, 66], by decide⟩ = .ok (0, self')) ∧
    ¬ Denotes [65, 66] ∧ setStr false blank ⟨[65], by decide⟩ = .error (.outOfBounds 1) :=
  ⟨⟨_, rfl⟩, by decide, rfl⟩

/-- After `00`, which is what the UUID begins with, the text `x` is refused. -/
theorem setStr_unchanged_zeros : ∃ self', setStr false blank ⟨[48, 48, 120], by decide⟩ =
    .ok (-1, self') ∧ self'.uuid = blank.uuid ∧ self'.str = blank.str ∧
      self'.strCanonical = blank.strCanonical := by
  have hset : setStr false blank ⟨[48, 48, 120], by decide⟩ = .ok (-1, blank.store 0 0 48 48) := rfl
  exact ⟨_, hset, (setStr_unchanged_iff hset).mpr (by decide)⟩

/-- The text `ABx` is refused, and `AB` is left in the UUID. -/
theorem setStr_refused_changes : ∃ self', setStr false blank ⟨[65, 66, 120], by decide⟩ =
    .ok (-1, self') ∧ self'.uuid.head? = some 171 ∧ self'.str ≠ blank.str ∧
      self'.strCanonical ≠ blank.strCanonical :=
  ⟨_, rfl, by decide⟩

end Zuuid

end Czmq
