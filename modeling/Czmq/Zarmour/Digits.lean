import Czmq.Base.Spelling
import Czmq.Zarmour.Codec

/-! What the loops compute: an encoder looks up the digits of its data in the sense of `Spelling`,
and a decoder writes the bytes that the digits in its text spell, for every text. -/

namespace Czmq.Zarmour

open Spelling

lemma base64Digits_encodes (data : List UInt8) : Encodes 6 data (base64Digits data) := by
  induction data using base64Digits.induct with
  | case1 a b c data ih =>
    have hgroup : spell 6 [a >>> 2, a <<< 4 &&& (0x30 : UInt8) ||| b >>> 4,
        b <<< 2 &&& (0x3c : UInt8) ||| c >>> 6, c &&& 0x3f] = spell 8 [a, b, c] := by
      simp [bits]
    exact Encodes.append hgroup ih
  | case2 a b => exact ⟨2, by decide, by simp [base64Digits, bits]⟩
  | case3 a => exact ⟨4, by decide, by simp [base64Digits, bits]⟩
  | case4 => exact Encodes.nil (by decide)

lemma base32Digits_encodes (data : List UInt8) : Encodes 5 data (base32Digits data) := by
  induction data using base32Digits.induct with
  | case1 a b c d e data ih =>
    have hgroup : spell 5 [a >>> 3, a <<< 2 &&& (0x1c : UInt8) ||| b >>> 6,
        b >>> 1 &&& (0x1f : UInt8), b <<< 4 &&& (0x10 : UInt8) ||| c >>> 4,
        c <<< 1 &&& (0x1e : UInt8) ||| d >>> 7, d >>> 2 &&& (0x1f : UInt8),
        d <<< 3 &&& (0x18 : UInt8) ||| e >>> 5, e &&& 0x1f] = spell 8 [a, b, c, d, e] := by
      simp [bits]
    exact Encodes.append hgroup ih
  | case2 a b c d => exact ⟨3, by decide, by simp [base32Digits, bits]⟩
  | case3 a b c => exact ⟨1, by decide, by simp [base32Digits, bits]⟩
  | case4 a b => exact ⟨4, by decide, by simp [base32Digits, bits]⟩
  | case5 a => exact ⟨2, by decide, by simp [base32Digits, bits]⟩
  | case6 => exact Encodes.nil (by decide)

lemma base16Digits_encodes (data : List UInt8) : Encodes 4 data (base16Digits data) := by
  induction data with
  | nil => exact Encodes.nil (by decide)
  | cons a data ih =>
    have hgroup : spell 4 [a >>> 4, a &&& 0x0f] = spell 8 [a] := by simp [bits]
    exact Encodes.append hgroup ih

lemma isDigit_base64Digits (data : List UInt8) : ∀ d ∈ base64Digits data, IsDigit 6 d := by
  induction data using base64Digits.induct with
  | case1 a b c data ih =>
    simpa (disch := decide) [base64Digits, isDigit_or, isDigit_and, isDigit_shiftRight] using ih
  | _ => simp (disch := decide) [base64Digits, isDigit_or, isDigit_and, isDigit_shiftRight]

lemma isDigit_base32Digits (data : List UInt8) : ∀ d ∈ base32Digits data, IsDigit 5 d := by
  induction data using base32Digits.induct with
  | case1 a b c d e data ih =>
    simpa (disch := decide) [base32Digits, isDigit_or, isDigit_and, isDigit_shiftRight] using ih
  | _ => simp (disch := decide) [base32Digits, isDigit_or, isDigit_and, isDigit_shiftRight]

lemma isDigit_base16Digits (data : List UInt8) : ∀ d ∈ base16Digits data, IsDigit 4 d := by
  induction data with
  | nil => simp [base16Digits]
  | cons a data ih =>
    simpa (disch := decide) [base16Digits, isDigit_and, isDigit_shiftRight] using ih

variable {w : Nat} {alphabet text : List UInt8} {convert : UInt8 → UInt8}

def digit (alphabet : List UInt8) (convert : UInt8 → UInt8) (c : UInt8) : Option UInt8 :=
  (strchr alphabet (convert c)).map UInt8.ofNat

def digitsIn (alphabet : List UInt8) (convert : UInt8 → UInt8) (text : List UInt8) : List UInt8 :=
  text.filterMap (digit alphabet convert)

lemma nextChar_spec (alphabet : List UInt8) (convert : UInt8 → UInt8) (text : List UInt8) :
    (nextChar alphabet convert text).1 = (digitsIn alphabet convert text).getD 0 0xff ∧
    digitsIn alphabet convert (nextChar alphabet convert text).2 =
      (digitsIn alphabet convert text).drop 1 ∧
    (nextChar alphabet convert text).2.length ≤ text.length - 1 := by
  induction text with
  | nil => exact ⟨rfl, rfl, le_rfl⟩
  | cons c text ih =>
    cases hc : strchr alphabet (convert c) with
    | some i =>
      rw [nextChar]
      simp [digitsIn, digit, hc]
    | none =>
      have hskip : digitsIn alphabet convert (c :: text) = digitsIn alphabet convert text := by
        simp [digitsIn, digit, hc]
      rw [hskip, nextChar, hc]
      exact ⟨ih.1, ih.2.1, ih.2.2.trans (by simp)⟩

lemma length_nextChar_le (alphabet : List UInt8) (convert : UInt8 → UInt8) (text : List UInt8) :
    (nextChar alphabet convert text).2.length ≤ text.length :=
  (nextChar_spec alphabet convert text).2.2.trans (Nat.sub_le _ _)

lemma length_nextChar_lt (htext : text ≠ []) :
    (nextChar alphabet convert text).2.length < text.length :=
  (nextChar_spec alphabet convert text).2.2.trans_lt
    (Nat.sub_lt (List.length_pos_of_ne_nil htext) Nat.one_pos)

@[simp] lemma nextChar_fst : (nextChar alphabet convert text).1 =
    (digitsIn alphabet convert text).getD 0 0xff := (nextChar_spec alphabet convert text).1

@[simp] lemma digitsIn_nextChar_snd : digitsIn alphabet convert (nextChar alphabet convert text).2 =
    (digitsIn alphabet convert text).drop 1 := (nextChar_spec alphabet convert text).2.1

lemma sentinel_ne {d : UInt8} (h : IsDigit w d) (hw : w < 8) : 0xff ≠ d := by
  rintro rfl
  have hle : 2 ^ w ≤ 2 ^ 7 := Nat.pow_le_pow_right (by decide) (by omega)
  exact absurd (lt_of_lt_of_le h hle) (by decide)

/-! ## Rounds -/

/-- The bytes of a round and what the rest of the text spells are what the whole spells. -/
def ReadsAt (w : Nat) (digits : List UInt8 → List UInt8) (text : List UInt8)
    (r : List UInt8 × List UInt8) : Prop :=
  r.2.length < text.length ∧ (∀ d ∈ digits r.2, d ∈ digits text) ∧
    ∀ y, Decodes w (digits r.2) y → Decodes w (digits text) (r.1 ++ y)

lemma readsAt_of_drop {digits : List UInt8 → List UInt8} {r : List UInt8 × List UInt8} (k : Nat)
    (hlt : r.2.length < text.length) (hrest : digits r.2 = (digits text).drop k)
    (hout : ∀ y, Decodes w ((digits text).drop k) y → Decodes w (digits text) (r.1 ++ y)) :
    ReadsAt w digits text r := by
  refine ⟨hlt, fun d hd => ?_, fun y hy => hout y (hrest ▸ hy)⟩
  rw [hrest] at hd
  exact List.mem_of_mem_drop hd

variable {ds y : List UInt8}

lemma decodes_last {out : List UInt8} (hy : Decodes w [] y)
    (hout : (spell w ds).take (8 * out.length) = spell 8 out)
    (hlen : w * ds.length < 8 * out.length + 8) : Decodes w ds (out ++ y) := by
  rw [hy.eq_nil, List.append_nil]
  refine ⟨(spell w ds).drop (8 * out.length), ?_, ?_⟩
  · rw [List.length_drop, length_spell]
    omega
  · rw [← hout, List.take_append_drop]

def base64Group (ds : List UInt8) : List UInt8 :=
  let i := fun k => ds.getD k 0xff
  emit [i 0, i 1] (i 0 <<< 2 ||| i 1 >>> 4) ++ emit [i 1, i 2] (i 1 <<< 4 ||| i 2 >>> 2) ++
    emit [i 2, i 3] (i 2 <<< 6 ||| i 3)

lemma base64Group_decodes (hds : ∀ d ∈ ds, IsDigit 6 d)
    (hy : Decodes 6 (ds.drop 4) y) : Decodes 6 ds (base64Group ds ++ y) := by
  rcases ds with _ | ⟨a, _ | ⟨b, _ | ⟨c, _ | ⟨d, ds⟩⟩⟩⟩
  · exact decodes_last hy (by simp [base64Group, emit]) (by simp)
  iterate 3
    ·
      apply decodes_last hy
      · simp [base64Group, emit, bits, hds, @sentinel_ne 6, @IsDigit.getElem_eq_false 6]
      · simp [base64Group, emit, hds, @sentinel_ne 6]
  ·
    have hgroup : spell 6 [a, b, c, d] = spell 8 (base64Group (a :: b :: c :: d :: ds)) := by
      simp [base64Group, emit, bits, hds, @sentinel_ne 6, @IsDigit.getElem_eq_false 6]
    exact hy.append hgroup

def base32Group (ds : List UInt8) : List UInt8 :=
  let i := fun k => ds.getD k 0xff
  emit [i 0, i 1] (i 0 <<< 3 ||| i 1 >>> 2) ++
    emit [i 1, i 2, i 3] (i 1 <<< 6 ||| i 2 <<< 1 ||| i 3 >>> 4) ++
    emit [i 3, i 4] (i 3 <<< 4 ||| i 4 >>> 1) ++
    emit [i 4, i 5, i 6] (i 4 <<< 7 ||| i 5 <<< 2 ||| i 6 >>> 3) ++
    emit [i 6, i 7] (i 6 <<< 5 ||| i 7)

lemma spell_base32Group {a b c d e f g h : UInt8}
    (hds : ∀ x ∈ a :: b :: c :: d :: e :: f :: g :: h :: ds, IsDigit 5 x) :
    spell 5 [a, b, c, d, e, f, g, h] =
      spell 8 (base32Group (a :: b :: c :: d :: e :: f :: g :: h :: ds)) := by
  simp [base32Group, emit, bits, hds, @sentinel_ne 5, @IsDigit.getElem_eq_false 5]

lemma base32Group_decodes (hds : ∀ d ∈ ds, IsDigit 5 d)
    (hy : Decodes 5 (ds.drop 8) y) : Decodes 5 ds (base32Group ds ++ y) := by
  rcases ds with _ | ⟨a, _ | ⟨b, _ | ⟨c, _ | ⟨d, _ | ⟨e, _ | ⟨f, _ | ⟨g, _ | ⟨h, ds⟩⟩⟩⟩⟩⟩⟩⟩
  · exact decodes_last hy (by simp [base32Group, emit]) (by simp)
  iterate 7
    ·
      apply decodes_last hy
      · simp [base32Group, emit, bits, hds, @sentinel_ne 5, @IsDigit.getElem_eq_false 5]
      · simp [base32Group, emit, hds, @sentinel_ne 5]
  · exact hy.append (spell_base32Group hds)

def base16Group (ds : List UInt8) : List UInt8 :=
  let i := fun k => ds.getD k 0xff
  emit [i 0, i 1] (i 0 <<< 4 ||| i 1)

lemma base16Group_decodes (hds : ∀ d ∈ ds, IsDigit 4 d)
    (hy : Decodes 4 (ds.drop 2) y) : Decodes 4 ds (base16Group ds ++ y) := by
  rcases ds with _ | ⟨a, _ | ⟨b, ds⟩⟩
  · exact decodes_last hy (by simp [base16Group, emit]) (by simp)
  · exact decodes_last hy (by simp [base16Group, emit]) (by simp)
  ·
    have hgroup : spell 4 [a, b] = spell 8 (base16Group (a :: b :: ds)) := by
      simp [base16Group, emit, bits, hds, @sentinel_ne 4, @IsDigit.getElem_eq_false 4]
    exact hy.append hgroup

lemma base64Round_readsAt (alphabet : List UInt8) (htext : text ≠ [])
    (hdigits : ∀ d ∈ digitsIn alphabet noConvert text, IsDigit 6 d) :
    ReadsAt 6 (digitsIn alphabet noConvert) text (base64Round alphabet text) := by
  have hout : (base64Round alphabet text).1 = base64Group (digitsIn alphabet noConvert text) := by
    simp [base64Round, base64Group]
  apply readsAt_of_drop 4
  · iterate 3 apply (length_nextChar_le _ _ _).trans_lt
    exact length_nextChar_lt htext
  · simp [base64Round]
  · intro y hy
    rw [hout]
    exact base64Group_decodes hdigits hy

lemma base32Round_readsAt (alphabet : List UInt8) (htext : text ≠ [])
    (hdigits : ∀ d ∈ digitsIn alphabet upperCase text, IsDigit 5 d) :
    ReadsAt 5 (digitsIn alphabet upperCase) text (base32Round alphabet text) := by
  have hout : (base32Round alphabet text).1 = base32Group (digitsIn alphabet upperCase text) := by
    simp [base32Round, base32Group]
  apply readsAt_of_drop 8
  · iterate 7 apply (length_nextChar_le _ _ _).trans_lt
    exact length_nextChar_lt htext
  · simp [base32Round]
  · intro y hy
    rw [hout]
    exact base32Group_decodes hdigits hy

lemma base16Round_readsAt (alphabet : List UInt8) (htext : text ≠ [])
    (hdigits : ∀ d ∈ digitsIn alphabet upperCase text, IsDigit 4 d) :
    ReadsAt 4 (digitsIn alphabet upperCase) text (base16Round alphabet text) := by
  have hout : (base16Round alphabet text).1 = base16Group (digitsIn alphabet upperCase text) := by
    simp [base16Round, base16Group]
  apply readsAt_of_drop 2
  · apply (length_nextChar_le _ _ _).trans_lt
    exact length_nextChar_lt htext
  · simp [base16Round]
  · intro y hy
    rw [hout]
    exact base16Group_decodes hdigits hy

lemma decodeLoop_decodes {digits : List UInt8 → List UInt8}
    {round : List UInt8 → List UInt8 × List UInt8} (hnil : digits [] = [])
    (hround : ∀ needle, needle ≠ [] → (∀ d ∈ digits needle, IsDigit w d) →
      ReadsAt w digits needle (round needle))
    (hdigits : ∀ d ∈ digits text, IsDigit w d) :
    ∃ y, decodeLoop round text = .ok y ∧ Decodes w (digits text) y := by
  let inv : List UInt8 × List UInt8 → Prop := fun s =>
    (∀ d ∈ digits s.1, IsDigit w d) ∧
      ∀ y, Decodes w (digits s.1) y → Decodes w (digits text) (s.2 ++ y)
  have hbody : ∀ s : List UInt8 × List UInt8, inv s → (!s.1.isEmpty) = true →
      inv ((round s.1).2, s.2 ++ (round s.1).1) ∧ (round s.1).2.length < s.1.length := by
    rintro ⟨needle, written⟩ ⟨hrange, hinv⟩ hguard
    have hne : needle ≠ [] := by simpa using hguard
    obtain ⟨hlt, hsub, hread⟩ := hround needle hne hrange
    refine ⟨⟨fun d hd => hrange d (hsub d hd), fun y hy => ?_⟩, hlt⟩
    rw [List.append_assoc]
    exact hinv _ (hread y hy)
  obtain ⟨⟨needle, written⟩, hrun, ⟨-, hinv⟩, hend⟩ := Loop.whileLoop_rule inv
    (fun s => s.1.length) hbody text.length (text, []) ⟨hdigits, fun _ hy => hy⟩ le_rfl
  obtain rfl : needle = [] := by simpa using hend
  refine ⟨written, by rw [decodeLoop]; simp only [hrun], ?_⟩
  have hempty : Decodes w (digits []) [] := by
    rw [hnil]
    exact ⟨[], by decide, rfl⟩
  simpa using hinv [] hempty

end Czmq.Zarmour
