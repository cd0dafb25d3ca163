import Czmq.Zarmour.Digits

/-! Armoured text decodes to its data, with one NUL behind. The size of the buffer comes from the
characters up to the last of the alphabet, less all line breaks: a break behind that is taken off
twice. -/

namespace Czmq.Zarmour

open Bytes Spelling List Mode

namespace Mode

def width : Mode → Nat
  | base64Std | base64Url => 6
  | base32Std | base32Hex => 5
  | base16 => 4

def alphabet : Mode → List UInt8
  | base64Std => base64Alphabet
  | base64Url => base64urlAlphabet
  | base32Std => base32Alphabet
  | base32Hex => base32hexAlphabet
  | base16 => base16Alphabet

def convert : Mode → UInt8 → UInt8
  | base64Std | base64Url => noConvert
  | base32Std | base32Hex | base16 => upperCase

def digits : Mode → List UInt8 → List UInt8
  | base64Std | base64Url => base64Digits
  | base32Std | base32Hex => base32Digits
  | base16 => base16Digits

def digitChars : Mode → Nat → Nat
  | base64Std | base64Url => fun length => 4 * (length / 3) + base64ExtraChars length
  | base32Std | base32Hex => fun length => 8 * (length / 5) + base32ExtraChars length
  | base16 => fun length => 2 * length

def padChars : Mode → Bool → Nat → Nat
  | base64Std | base64Url => base64PadChars
  | base32Std | base32Hex => base32PadChars
  | base16 => fun _ _ => 0

def size : Mode → Nat → Except Fault Nat
  | base64Std | base64Url => base64Size
  | base32Std | base32Hex => base32Size
  | base16 => base16Size

def round (m : Mode) : List UInt8 → List UInt8 × List UInt8 :=
  match m with
  | base64Std | base64Url => base64Round m.alphabet
  | base32Std | base32Hex => base32Round m.alphabet
  | base16 => base16Round m.alphabet

def strip (m : Mode) (text : List UInt8) : List UInt8 :=
  if m = base16 then text else Zarmour.strip m.alphabet m.convert text

def digit (m : Mode) : UInt8 → Option UInt8 := Zarmour.digit m.alphabet m.convert

def digitsIn (m : Mode) : List UInt8 → List UInt8 := Zarmour.digitsIn m.alphabet m.convert

def letter (m : Mode) (d : UInt8) : UInt8 := m.alphabet.getD d.toNat 0

end Mode

lemma decode_eq (self : Zarmour) (data : List UInt8) :
    self.decode data = countLinebreakchars self.lineEnd.1 data >>= fun linebreakchars =>
      decodeText self.mode.size self.mode.round linebreakchars (self.mode.strip data) := by
  rw [decode]
  cases self.mode <;> rfl

section
variable {s : List UInt8} {c : UInt8} {i : Nat}

lemma strchr_getElem (hs : (s ++ [0]).Nodup) (hi : i < s.length) : strchr s s[i] = some i := by
  have hlen : i < (s ++ [0]).length := by
    rw [length_append]
    omega
  have hget : s[i] = (s ++ [0])[i] := (getElem_append_left hi).symm
  rw [strchr, idxOf?, findIdx?_eq_some_iff_getElem, hget]
  refine ⟨hlen, beq_self_eq_true _, fun j hj => ?_⟩
  rw [beq_iff_eq, hs.getElem_inj_iff]
  exact hj.ne

lemma strchr_lt (hc : c ≠ 0) (h : strchr s c = some i) : i < s.length := by
  rw [strchr, idxOf?, findIdx?_eq_some_iff_getElem] at h
  obtain ⟨hi, heq, -⟩ := h
  by_contra hge
  have hlast : i = s.length := by simp at hi; omega
  subst hlast
  simp [hc.symm] at heq

end

lemma upperCase_ne_zero {c : UInt8} (hc : c ≠ 0) : upperCase c ≠ 0 := by
  rw [upperCase]
  split
  · next hbit =>
    intro hzero
    apply hbit
    rw [show (0x40 : UInt8) = 0xdf &&& 0x40 from rfl, ← UInt8.and_assoc, hzero]
    rfl
  · rw [show (0xff : UInt8) = -1 from rfl, UInt8.and_neg_one]
    exact hc

namespace Mode

variable (m : Mode) {c d : UInt8}

lemma width_le : m.width ≤ 6 := by cases m <;> decide

lemma length_alphabet : m.alphabet.length = 2 ^ m.width := by cases m <;> rfl

-- The terminator is part of the search, so it must not be a letter either.
lemma nodup_alphabet : (m.alphabet ++ [0]).Nodup := by cases m <;> decide +kernel

lemma convert_letter : ∀ c ∈ m.alphabet, m.convert c = c := by cases m <;> decide +kernel

lemma digit_newline : m.digit 10 = none := by cases m <;> decide

lemma convert_ne_zero (hc : c ≠ 0) : m.convert c ≠ 0 := by
  cases m
  case base64Std | base64Url => exact hc
  all_goals exact upperCase_ne_zero hc

variable {m}

lemma letter_eq (hd : IsDigit m.width d) :
    ∃ h : d.toNat < m.alphabet.length, m.letter d = m.alphabet[d.toNat] := by
  have h : d.toNat < m.alphabet.length := by
    rw [length_alphabet]
    exact hd
  exact ⟨h, by simp [letter, h]⟩

lemma digit_letter (hd : IsDigit m.width d) : m.digit (m.letter d) = some d := by
  obtain ⟨h, he⟩ := letter_eq hd
  rw [digit, Zarmour.digit, he, convert_letter m _ (getElem_mem h),
    strchr_getElem m.nodup_alphabet h, Option.map_some, UInt8.ofNat_toNat]

lemma isDigit_of_digit (hc : c ≠ 0) (h : m.digit c = some d) : IsDigit m.width d := by
  rw [digit, Zarmour.digit, Option.map_eq_some_iff] at h
  obtain ⟨i, hi, rfl⟩ := h
  have hlt : i < 2 ^ m.width := by
    rw [← length_alphabet]
    exact strchr_lt (m.convert_ne_zero hc) hi
  have hbyte : 2 ^ m.width ≤ 2 ^ 6 := Nat.pow_le_pow_right (by decide) m.width_le
  rw [IsDigit, UInt8.toNat_ofNat_of_lt' (by simp only [UInt8.size]; omega)]
  exact hlt

end Mode

/-! ## The text of the encoder -/

lemma store_replicate {n : Nat} {written : List UInt8} (h : written.length ≤ n) :
    store (replicate n 0) written =
      .ok (written ++ replicate (n - written.length) 0) := by
  rw [store, if_pos (by simpa using h)]
  simp [splice]

namespace Mode

variable (m : Mode) (data : List UInt8)

lemma digits_encodes : Encodes m.width data (m.digits data) := by
  cases m
  case base64Std | base64Url => exact base64Digits_encodes data
  case base32Std | base32Hex => exact base32Digits_encodes data
  case base16 => exact base16Digits_encodes data

lemma isDigit_digits : ∀ d ∈ m.digits data, IsDigit m.width d := by
  cases m
  case base64Std | base64Url => exact isDigit_base64Digits data
  case base32Std | base32Hex => exact isDigit_base32Digits data
  case base16 => exact isDigit_base16Digits data

lemma length_digits : (m.digits data).length = m.digitChars data.length := by
  obtain ⟨hle, hlt⟩ := (m.digits_encodes data).length
  cases m
  case base64Std | base64Url =>
    simp only [width, digitChars, base64ExtraChars] at *
    split <;> omega
  case base32Std | base32Hex =>
    simp only [width, digitChars, base32ExtraChars] at *
    have hcases : data.length % 5 = 0 ∨ data.length % 5 = 1 ∨ data.length % 5 = 2 ∨
      data.length % 5 = 3 ∨ data.length % 5 = 4 := by omega
    rcases hcases with h | h | h | h | h <;> simp only [h] <;> omega
  case base16 =>
    simp only [width, digitChars] at *
    omega

def letters : List UInt8 := (m.digits data).map m.letter

lemma mapM_letter {ds : List UInt8} (hds : ∀ d ∈ ds, IsDigit m.width d) :
    ds.mapM (Zarmour.letter m.alphabet) = .ok (ds.map m.letter) := by
  induction ds with
  | nil => rfl
  | cons d ds ih =>
    rw [forall_mem_cons] at hds
    obtain ⟨h, he⟩ := letter_eq hds.1
    have hletter : Zarmour.letter m.alphabet d = .ok (m.letter d) := by
      rw [Zarmour.letter, he, getElem?_append_left h, getElem?_eq_getElem h]
    rw [mapM_cons, hletter, ih hds.2]
    rfl

end Mode

lemma encodeDigits_eq (m : Mode) (data : List UInt8) {p : Nat} {fill : Bool} (padChar : UInt8)
    (hfill : fill = true ∨ p = 0) :
    encodeDigits m.alphabet (m.digits data) (m.digitChars data.length + p) fill padChar =
      if m.digitChars data.length + p + 1 < 2 ^ 63 then
        .ok (m.letters data ++ replicate p padChar ++ [0])
      else .error .outOfMemory := by
  rw [encodeDigits, zmalloc]
  split
  · have hlen : (m.letters data).length = m.digitChars data.length := by
      rw [letters, length_map, m.length_digits]
    have hpad : (if fill then replicate
        (m.digitChars data.length + p - (m.letters data).length) padChar else []) =
        replicate p padChar := by
      rcases hfill with rfl | rfl <;> simp [hlen]
    rw [m.mapM_letter (m.isDigit_digits data), ok_bind, ok_bind, ← letters, hpad,
      store_replicate (by simp [hlen, Nat.add_assoc])]
    simp [hlen, Nat.add_assoc]
  · rfl

def chars (self : Zarmour) (data : List UInt8) : List UInt8 :=
  self.mode.letters data ++ replicate (self.mode.padChars self.pad data.length) self.padChar

lemma length_chars (self : Zarmour) (data : List UInt8) : (self.chars data).length =
    self.mode.digitChars data.length + self.mode.padChars self.pad data.length := by
  rw [chars, length_append, letters, length_map, length_digits,
    length_replicate]

lemma encodeMode_eq (self : Zarmour) (data : List UInt8) :
    self.encodeMode data = if (self.chars data).length + 1 < 2 ^ 63 then .ok (self.chars data ++ [0])
      else .error .outOfMemory := by
  have hpad : self.pad = true ∨ base64PadChars self.pad data.length = 0 := by
    cases self.pad <;> simp [base64PadChars]
  rw [length_chars, encodeMode, chars]
  cases self.mode with
  | base64Std => exact encodeDigits_eq .base64Std data self.padChar hpad
  | base64Url => exact encodeDigits_eq .base64Url data self.padChar hpad
  | base32Std => exact encodeDigits_eq .base32Std data self.padChar (.inl rfl)
  | base32Hex => exact encodeDigits_eq .base32Hex data self.padChar (.inl rfl)
  | base16 => exact encodeDigits_eq .base16 data 0 (.inr rfl)

namespace Mode

variable {m : Mode} {length n : Nat}

lemma size_eq (h : m.size length = .ok n) : n = m.width * length / 8 + 1 := by
  cases m
  case base64Std | base64Url =>
    simp only [size, base64Size, Except.ok.injEq] at h
    simp only [width]
    split at h <;> omega
  case base32Std | base32Hex =>
    simp only [size, base32Size] at h
    simp only [width]
    split at h <;> simp at h <;> omega
  case base16 =>
    simp only [size, base16Size, Except.ok.injEq] at h
    simp only [width]
    omega

lemma size_of_digits (hle : 8 * n ≤ m.width * length) (hlt : m.width * length < 8 * n + m.width) :
    m.size length = .ok (n + 1) := by
  cases m
  case base64Std | base64Url =>
    simp only [size, base64Size, Except.ok.injEq, width] at *
    split <;> omega
  case base32Std | base32Hex =>
    simp only [size, base32Size, width] at *
    have hcases : length % 8 = 0 ∨ length % 8 = 2 ∨ length % 8 = 4 ∨ length % 8 = 5 ∨
      length % 8 = 7 := by omega
    rcases hcases with h | h | h | h | h <;> simp [h] <;> omega
  case base16 =>
    simp only [size, base16Size, Except.ok.injEq, width] at *
    omega

lemma size_sub_eq_iff {a k : Nat} (hle : 8 * n ≤ m.width * a) (hlt : m.width * a < 8 * n + m.width)
    (ha : a < 2 ^ 63) (hk : k < 2 ^ 63) :
    m.size (sizeT ((a : Int) - k)) = .ok (n + 1) ↔ k = 0 := by
  constructor
  · intro h
    have hsize := size_eq h
    have hword : sizeT ((a : Int) - k) = if k ≤ a then a - k else 2 ^ 64 + a - k := by
      rw [sizeT]
      split <;> omega
    rw [hword] at hsize
    cases m <;> simp only [width] at * <;> split at hsize <;> omega
  · rintro rfl
    have hword : sizeT ((a : Int) - (0 : Nat)) = a := by
      rw [sizeT]
      omega
    rw [hword]
    exact size_of_digits hle hlt

end Mode

lemma zmalloc_store_eq_iff {n : Nat} {written : List UInt8} :
    (zmalloc n >>= fun buffer => store buffer written) = .ok written ↔
      n = written.length ∧ n < 2 ^ 63 := by
  rw [zmalloc]
  split
  · next h =>
    rw [ok_bind]
    constructor
    · intro he
      rw [store] at he
      split at he
      · next hle =>
        have hlen := congrArg length (Except.ok.inj he)
        rw [length_splice (by omega)] at hlen
        exact ⟨by simpa using hlen, h⟩
      · cases he
    · rintro ⟨rfl, -⟩
      simp [store_replicate]
  · next h => exact ⟨(fun he => nomatch he), fun he => absurd he.2 h⟩

lemma strstr_newline_cons {c : UInt8} (hc : 10 ≠ c) (pos : List UInt8) :
    strstr newline.1 (c :: pos) = strstr newline.1 pos := by
  rw [strstr, if_neg (by simp [newline, hc])]

lemma strstr_newline_append {pre : List UInt8} (hpre : 10 ∉ pre) (post : List UInt8) :
    strstr newline.1 (pre ++ 10 :: post) = some (10 :: post) := by
  induction pre with
  | nil => simp [strstr, newline]
  | cons c pre ih =>
    rw [mem_cons, not_or] at hpre
    rw [cons_append, strstr_newline_cons hpre.1, ih hpre.2]

lemma strstr_newline_none {pos : List UInt8} (hpos : 10 ∉ pos) : strstr newline.1 pos = none := by
  induction pos with
  | nil => rfl
  | cons c pos ih =>
    rw [mem_cons, not_or] at hpos
    rw [strstr_newline_cons hpos.1, ih hpos.2]

lemma countLinebreakchars_newline (data : List UInt8) :
    countLinebreakchars newline.1 data = .ok (data.count 10) := by
  have hbody : ∀ s : List UInt8 × Nat, s.2 + s.1.count 10 = data.count 10 →
      (strstr newline.1 s.1).isSome = true →
      (skipLineEnd newline.1 s).2 + (skipLineEnd newline.1 s).1.count 10 = data.count 10 ∧
        (skipLineEnd newline.1 s).1.length < s.1.length := by
    rintro ⟨pos, count⟩ hinv hguard
    have hmem : 10 ∈ pos := by
      by_contra h
      simp [strstr_newline_none h] at hguard
    obtain ⟨pre, post, rfl, hpre⟩ := eq_append_cons_of_mem hmem
    rw [skipLineEnd, strstr_newline_append hpre]
    simp only [count_append, count_cons_self, count_eq_zero_of_not_mem hpre] at hinv
    change count + 1 + post.count 10 = data.count 10 ∧ post.length < (pre ++ 10 :: post).length
    rw [length_append, length_cons]
    omega
  obtain ⟨⟨pos, count⟩, hrun, hinv, hend⟩ := Loop.whileLoop_rule
    (fun s : List UInt8 × Nat => s.2 + s.1.count 10 = data.count 10) (fun s => s.1.length) hbody
    data.length (data, 0) (Nat.zero_add _) le_rfl
  have hnone : 10 ∉ pos := by
    intro h
    obtain ⟨pre, post, rfl, hpre⟩ := eq_append_cons_of_mem h
    simp [strstr_newline_append hpre] at hend
  simp only [countLinebreakchars, hrun]
  simpa [count_eq_zero_of_not_mem hnone] using hinv

/-! ## Decoding -/

section
variable {m : Mode} {text : List UInt8}

lemma round_readsAt (htext : text ≠ []) (hdigits : ∀ d ∈ m.digitsIn text, IsDigit m.width d) :
    ReadsAt m.width m.digitsIn text (m.round text) := by
  cases m
  case base64Std | base64Url => exact base64Round_readsAt _ htext hdigits
  case base32Std | base32Hex => exact base32Round_readsAt _ htext hdigits
  case base16 => exact base16Round_readsAt _ htext hdigits

lemma isDigit_digitsIn (hnul : 0 ∉ text) : ∀ d ∈ m.digitsIn text, IsDigit m.width d := by
  intro d hd
  obtain ⟨c, hc, hcd⟩ := mem_filterMap.mp hd
  exact isDigit_of_digit (fun h => hnul (h ▸ hc)) hcd

lemma length_eq_digitsIn_add_count (hchars : ∀ c ∈ text, c = 10 ∨ (m.digit c).isSome) :
    text.length = (m.digitsIn text).length + text.count 10 := by
  induction text with
  | nil => rfl
  | cons c text ih =>
    rw [forall_mem_cons] at hchars
    have ih := ih hchars.2
    by_cases hc : c = 10
    · subst hc
      have hskip : m.digitsIn (10 :: text) = m.digitsIn text :=
        filterMap_cons_none m.digit_newline
      rw [hskip, length_cons, count_cons_self]
      omega
    · obtain ⟨d, hd⟩ := Option.isSome_iff_exists.mp (hchars.1.resolve_left hc)
      have hread : m.digitsIn (c :: text) = d :: m.digitsIn text := filterMap_cons_some hd
      rw [hread, length_cons, length_cons, count_cons_of_ne hc]
      omega

end

/-- A text of digits that spell `data`, with line breaks between and other characters behind them.
Base16 has nothing behind them. -/
structure Armoured (m : Mode) (data text trailing : List UInt8) : Prop where
  nul : 0 ∉ text
  chars : ∀ c ∈ text, c = 10 ∨ (m.digit c).isSome
  last : ∀ h : text ≠ [], (m.digit (text.getLast h)).isSome
  behind : ∀ c ∈ trailing, m.digit c = none
  base16 : m = .base16 → trailing = []
  spells : Encodes m.width data (m.digitsIn text)

section
variable {self : Zarmour} {m : Mode} {data text trailing : List UInt8}

lemma Armoured.strip (h : Armoured m data text trailing) : m.strip (text ++ trailing) = text := by
  have hnone : ∀ c, (strchr m.alphabet (m.convert c)).isNone = (m.digit c).isNone := by
    intro c
    rw [Mode.digit, digit, Option.isNone_map]
  rw [Mode.strip]
  split
  · next hm => rw [h.base16 hm, append_nil]
  · have hlast := h.last
    have hbehind := h.behind
    rw [Zarmour.strip]
    simp only [hnone]
    clear h
    induction trailing using reverseRecOn with
    | nil =>
      rw [append_nil, rdropWhile_eq_self_iff]
      intro hne
      rw [Option.isNone_iff_eq_none]
      exact Option.isSome_iff_ne_none.mp (hlast hne)
    | append_singleton trailing c ih =>
      rw [← append_assoc, rdropWhile_concat_pos _ _ _ (by simp [hbehind c])]
      exact ih (fun c hc => hbehind c (mem_append_left _ hc))

lemma Armoured.decode_eq_ok_iff (h : Armoured self.mode data text trailing)
    (hend : self.lineEnd = newline) (hlen : (text ++ trailing).length + 1 < 2 ^ 63) :
    self.decode (text ++ trailing) = .ok (data ++ [0]) ↔ 10 ∉ trailing := by
  obtain ⟨y, hloop, hy⟩ := decodeLoop_decodes rfl (fun _ => round_readsAt) (isDigit_digitsIn h.nul)
  obtain rfl : y = data := h.spells.decodes (self.mode.width_le.trans (by decide)) hy
  obtain ⟨hle, hlt⟩ := h.spells.length
  have hcount := length_eq_digitsIn_add_count h.chars
  -- The breaks between the digits cancel out; those behind the last digit remain.
  have hword : (text.length : Int) - ((text ++ trailing).count 10 : Nat) =
      ((self.mode.digitsIn text).length : Int) - (trailing.count 10 : Nat) := by
    rw [count_append]
    omega
  have htrailing : trailing.count 10 ≤ trailing.length := count_le_length
  have hroom : y.length ≤ (self.mode.digitsIn text).length := by
    have hwidth := Nat.mul_le_mul_right (self.mode.digitsIn text).length self.mode.width_le
    omega
  rw [length_append] at hlen
  rw [decode_eq, hend, countLinebreakchars_newline, ok_bind, h.strip, decodeText, hword, hloop,
    ← count_eq_zero, ← size_sub_eq_iff hle hlt (by omega) (by omega)]
  cases self.mode.size (sizeT ((self.mode.digitsIn text).length - (trailing.count 10 : Nat))) with
  | error e => exact ⟨(fun h => nomatch h), (fun h => nomatch h)⟩
  | ok n =>
    simp only [ok_bind, zmalloc_store_eq_iff, length_append, length_singleton,
      Except.ok.injEq]
    omega

end

def lowerCase (c : UInt8) : UInt8 := if 65 ≤ c ∧ c ≤ 90 then c + 32 else c

lemma upperCase_lowerCase (c : UInt8) : upperCase (lowerCase c) = upperCase c := by
  have htable : ∀ n < 256, upperCase (lowerCase (UInt8.ofNat n)) = upperCase (UInt8.ofNat n) := by
    decide +kernel
  simpa using htable c.toNat c.toNat_lt

lemma eq_lowerCase_iff {c d : UInt8} (hd : d < 65) : d = lowerCase c ↔ d = c := by
  rw [lowerCase]
  split
  · next h =>
    have hc : (c + 32).toNat = c.toNat + 32 := by
      have hle := UInt8.le_iff_toNat_le.mp h.2
      simp at *
      omega
    have hge := UInt8.le_iff_toNat_le.mp h.1
    have hlt := UInt8.lt_iff_toNat_lt.mp hd
    constructor
    · rintro rfl
      omega
    · rintro rfl
      omega
  · rfl

lemma Armoured.lowerCase {m : Mode} {data text trailing : List UInt8} (hm : m.convert = upperCase)
    (h : Armoured m data text trailing) :
    Armoured m data (text.map lowerCase) (trailing.map lowerCase) := by
  have hdigit : ∀ c, m.digit (Zarmour.lowerCase c) = m.digit c := by
    intro c
    rw [Mode.digit, hm, digit, digit, upperCase_lowerCase]
  have hin : m.digitsIn (text.map Zarmour.lowerCase) = m.digitsIn text := by
    rw [Mode.digitsIn, digitsIn, filterMap_map]
    exact filterMap_congr fun c _ => hdigit c
  exact {
    nul := by
      rintro hc
      obtain ⟨c, hc, hzero⟩ := mem_map.mp hc
      rw [eq_comm, eq_lowerCase_iff (by decide)] at hzero
      exact h.nul (hzero ▸ hc)
    chars := by
      rw [forall_mem_map]
      intro c hc
      rw [hdigit, eq_comm, eq_lowerCase_iff (by decide), eq_comm]
      exact h.chars c hc
    last := by
      intro hne
      rw [getLast_map, hdigit]
      exact h.last _
    behind := by simpa [hdigit] using h.behind
    base16 := fun hm => by rw [h.base16 hm, map_nil]
    spells := by
      rw [hin]
      exact h.spells }

/-! ## Round trip -/

section
variable (m : Mode) (data : List UInt8)

lemma digitsIn_letters : m.digitsIn (m.letters data) = m.digits data := by
  have hdigits := m.isDigit_digits data
  rw [letters]
  generalize m.digits data = ds at hdigits ⊢
  induction ds with
  | nil => rfl
  | cons d ds ih =>
    rw [forall_mem_cons] at hdigits
    have hread : m.digitsIn ((d :: ds).map m.letter) = d :: m.digitsIn (ds.map m.letter) :=
      filterMap_cons_some (digit_letter hdigits.1)
    rw [hread, ih hdigits.2]

lemma digit_letters : ∀ c ∈ m.letters data, (m.digit c).isSome := by
  intro c hc
  obtain ⟨d, hd, rfl⟩ := mem_map.mp hc
  rw [digit_letter (m.isDigit_digits data d hd)]
  rfl

lemma nul_notMem_letters : 0 ∉ m.letters data := by
  intro h
  obtain ⟨d, hd, hzero⟩ := mem_map.mp h
  obtain ⟨hlt, he⟩ := letter_eq (m.isDigit_digits data d hd)
  have hmem : 0 ∈ m.alphabet := by
    rw [← hzero, he]
    exact getElem_mem hlt
  exact (nodup_append.mp m.nodup_alphabet).2.2 0 hmem 0 (mem_singleton_self 0) rfl

lemma armoured_letters {trailing : List UInt8} (hbehind : ∀ c ∈ trailing, m.digit c = none)
    (hbase16 : m = .base16 → trailing = []) : Armoured m data (m.letters data) trailing where
  nul := nul_notMem_letters m data
  chars := fun c hc => .inr (digit_letters m data c hc)
  last := fun h => digit_letters m data _ (getLast_mem h)
  behind := hbehind
  base16 := hbase16
  spells := by
    rw [digitsIn_letters]
    exact m.digits_encodes data

end

section
variable (self : Zarmour) (data : List UInt8)

def padding : List UInt8 :=
  if self.padChar = 0 then [] else replicate (self.mode.padChars self.pad data.length) self.padChar

lemma cstr_chars : cstr (self.chars data ++ [0]) = self.mode.letters data ++ self.padding data := by
  have hletters := nul_notMem_letters self.mode data
  rw [chars, padding]
  split
  · next h =>
    rw [h, append_assoc, ← replicate_succ', append_nil]
    exact cstr_append ⟨_, hletters⟩ _
  · next h =>
    have hnul : 0 ∉ self.mode.letters data ++
        replicate (self.mode.padChars self.pad data.length) self.padChar := by
      simp [hletters, Ne.symm h]
    exact cstr_append ⟨_, hnul⟩ []

lemma nul_notMem_text : 0 ∉ self.mode.letters data ++ self.padding data := by
  rw [mem_append, not_or, padding]
  refine ⟨nul_notMem_letters self.mode data, ?_⟩
  split
  · exact not_mem_nil
  · next h => exact fun hc => h (eq_of_mem_replicate hc).symm

lemma padding_base16 (hm : self.mode = .base16) : self.padding data = [] := by
  rw [padding, hm]
  exact ite_self _

lemma digit_padding
    (hpad : self.mode ≠ .base16 → self.mode.convert self.padChar ∉ self.mode.alphabet) :
    ∀ c ∈ self.padding data, self.mode.digit c = none := by
  intro c hc
  by_cases hm : self.mode = .base16
  · rw [padding_base16 self data hm] at hc
    exact absurd hc (not_mem_nil)
  · rw [padding] at hc
    split at hc
    · exact absurd hc (not_mem_nil)
    · next hzero =>
      rw [eq_of_mem_replicate hc, Mode.digit, digit, Option.map_eq_none_iff, strchr,
        idxOf?_eq_none_iff, mem_append, mem_singleton, not_or]
      exact ⟨hpad hm, self.mode.convert_ne_zero hzero⟩

lemma length_letters : (self.mode.letters data).length = self.mode.digitChars data.length := by
  rw [letters, length_map, length_digits]

variable {self data}

lemma length_chars_lt (hroom : self.encode data ≠ .error .outOfMemory) :
    (self.chars data).length + 1 < 2 ^ 63 := by
  by_contra h
  rw [encode, encodeMode_eq, if_neg h] at hroom
  exact hroom rfl

lemma encode_eq (hroom : (self.chars data).length + 1 < 2 ^ 63) :
    let text := self.mode.letters data ++ self.padding data
    self.encode data =
      if self.lineBreaks ∧ 0 < self.lineLength ∧ self.lineLength < text.length then
        self.breakLines text >>= fun str => .ok (cstr str)
      else .ok text := by
  rw [encode, encodeMode_eq, if_pos hroom, ok_bind, cstr_chars]

lemma length_text_lt (hroom : (self.chars data).length + 1 < 2 ^ 63) :
    (self.mode.letters data ++ self.padding data).length + 1 < 2 ^ 63 := by
  have hpadding : (self.padding data).length ≤ self.mode.padChars self.pad data.length := by
    rw [padding]
    split <;> simp
  rw [length_chars] at hroom
  rw [length_append, length_letters]
  omega

end

/-- Without line breaks any data is decoded to itself and a NUL, in lower case too where the decoder
converts, exactly when the text has no padding or is not padded with the line end. -/
theorem decode_encode_iff (self : Zarmour) (data : List UInt8) (hbreaks : self.lineBreaks = false)
    (hend : self.lineEnd = newline)
    (hpad : self.mode ≠ .base16 → self.mode.convert self.padChar ∉ self.mode.alphabet)
    (hroom : self.encode data ≠ .error .outOfMemory) :
    ∃ text, self.encode data = .ok text ∧
      ((self.decode text = .ok (data ++ [0]) ∧
          (self.mode ∈ [.base32Std, .base32Hex, .base16] →
            self.decode (text.map lowerCase) = .ok (data ++ [0]))) ↔
        self.mode.padChars self.pad data.length = 0 ∨ self.padChar ≠ 10) := by
  have hchars := length_chars_lt hroom
  have hlen := length_text_lt hchars
  have htext := armoured_letters self.mode data (digit_padding self data hpad)
    (padding_base16 self data)
  have hplain := htext.decode_eq_ok_iff hend hlen
  have hnewline : 10 ∉ self.padding data ↔
      self.mode.padChars self.pad data.length = 0 ∨ self.padChar ≠ 10 := by
    rw [padding]
    split
    · next h => simp [h]
    · rw [mem_replicate]
      tauto
  refine ⟨_, (encode_eq hchars).trans (if_neg (by simp [hbreaks])), ?_⟩
  rw [hplain, hnewline, and_iff_left_iff_imp]
  intro hcond hmode
  have hconvert : self.mode.convert = upperCase := by
    rcases hm : self.mode <;> simp_all [convert]
  have hlower := (htext.lowerCase hconvert).decode_eq_ok_iff hend (by simpa using hlen)
  rw [map_append, hlower, mem_map]
  rintro ⟨c, hc, hten⟩
  rw [eq_comm, eq_lowerCase_iff (by decide)] at hten
  exact hnewline.mpr hcond (hten ▸ hc)

theorem decode_encode_default : ∃ text, new.encode [102, 111, 111, 98] = .ok text ∧
    ((new.decode text = .ok ([102, 111, 111, 98] ++ [0]) ∧
        (new.mode ∈ [.base32Std, .base32Hex, .base16] →
          new.decode (text.map lowerCase) = .ok ([102, 111, 111, 98] ++ [0]))) ↔
      new.mode.padChars new.pad 4 = 0 ∨ new.padChar ≠ 10) :=
  decode_encode_iff new [102, 111, 111, 98] rfl rfl (fun _ => by decide) (by decide)

/-- Padded with line feeds, one byte is two digits and two line feeds: the buffer is for no byte,
and the decoder writes behind it. -/
theorem decode_encode_newline_pad :
    let self := { new with padChar := 10 }
    self.mode.convert self.padChar ∉ self.mode.alphabet ∧
      self.encode [0] = .ok [65, 65, 10, 10] ∧
      self.decode [65, 65, 10, 10] = .error (.outOfBounds 1) := by
  decide

end Czmq.Zarmour
