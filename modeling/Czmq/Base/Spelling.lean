import Mathlib.Data.UInt
import Mathlib.Tactic.Common
import Mathlib.Tactic.Ring

/-! Byte strings spelled in digits of `w ≤ 8` bits, most significant first: the bits cut into groups
of `w`, with zeros to fill the last one. -/

namespace Spelling

open List

def bits : Nat → UInt8 → List Bool
  | 0, _ => []
  | w + 1, d => d.toBitVec.getLsbD w :: bits w d

def spell (w : Nat) (ds : List UInt8) : List Bool := ds.flatMap (bits w)

variable {w : Nat} {d e : UInt8} {x y ds : List UInt8}

@[simp] lemma length_bits (w : Nat) (d : UInt8) : (bits w d).length = w := by
  induction w with
  | zero => rfl
  | succ w ih => rw [bits, length_cons, ih]

@[simp] lemma spell_nil : spell w [] = [] := rfl

@[simp] lemma spell_cons : spell w (d :: ds) = bits w d ++ spell w ds := rfl

@[simp] lemma spell_append : spell w (x ++ y) = spell w x ++ spell w y := flatMap_append

@[simp] lemma length_spell (w : Nat) (ds : List UInt8) : (spell w ds).length = w * ds.length := by
  induction ds with
  | nil => rfl
  | cons d ds ih => rw [spell_cons, length_append, length_bits, ih, length_cons]; ring

lemma getLsbD_of_bits_eq (h : bits w d = bits w e) :
    ∀ i < w, d.toBitVec.getLsbD i = e.toBitVec.getLsbD i := by
  induction w with
  | zero => intro i hi; omega
  | succ w ih =>
    obtain ⟨hw, hrest⟩ := cons.inj h
    intro i hi
    rcases Nat.lt_succ_iff_lt_or_eq.mp hi with hlt | rfl
    · exact ih hrest i hlt
    · exact hw

lemma eq_of_bits_eq (h : bits 8 d = bits 8 e) : d = e :=
  UInt8.toBitVec_inj.mp (BitVec.eq_of_getLsbD_eq (getLsbD_of_bits_eq h))

lemma spell_injective : Function.Injective (spell 8) := by
  intro x
  induction x with
  | nil =>
    intro y h
    have hlen := congrArg List.length h
    simp only [length_spell, length_nil] at hlen
    exact (length_eq_zero_iff.mp (by omega)).symm
  | cons c x ih =>
    intro y h
    cases y with
    | nil => simp [bits] at h
    | cons e y =>
      obtain ⟨hbits, hrest⟩ := append_inj h (by simp)
      rw [eq_of_bits_eq hbits, ih hrest]

/-- `ds` are the bits of `x` in digits of `w` bits, filled up with zeros. -/
def Encodes (w : Nat) (x ds : List UInt8) : Prop :=
  ∃ z, z < w ∧ spell w ds = spell 8 x ++ replicate z false

def Decodes (w : Nat) (ds y : List UInt8) : Prop :=
  ∃ rest : List Bool, rest.length < 8 ∧ spell w ds = spell 8 y ++ rest

lemma Encodes.nil (hw : 0 < w) : Encodes w [] [] := ⟨0, hw, rfl⟩

lemma Decodes.eq_nil (h : Decodes w [] y) : y = [] := by
  obtain ⟨rest, -, h⟩ := h
  have hlen := congrArg List.length h
  simp only [length_append, length_spell, length_nil] at hlen
  exact length_eq_zero_iff.mp (by omega)

section
variable {g gd : List UInt8} (hg : spell w gd = spell 8 g)
include hg

lemma Encodes.append (h : Encodes w x ds) : Encodes w (g ++ x) (gd ++ ds) := by
  obtain ⟨z, hz, h⟩ := h
  exact ⟨z, hz, by rw [spell_append, spell_append, hg, h, append_assoc]⟩

lemma Decodes.append (h : Decodes w ds y) : Decodes w (gd ++ ds) (g ++ y) := by
  obtain ⟨rest, hrest, h⟩ := h
  exact ⟨rest, hrest, by rw [spell_append, spell_append, hg, h, append_assoc]⟩

end

lemma Encodes.length (h : Encodes w x ds) :
    8 * x.length ≤ w * ds.length ∧ w * ds.length < 8 * x.length + w := by
  obtain ⟨z, hz, h⟩ := h
  have hlen := congrArg List.length h
  simp only [length_append, length_spell, length_replicate] at hlen
  omega

lemma Decodes.length (h : Decodes w ds y) : y.length = w * ds.length / 8 := by
  obtain ⟨rest, hrest, h⟩ := h
  have hlen := congrArg List.length h
  simp only [length_append, length_spell] at hlen
  omega

lemma Encodes.decodes (hw : w ≤ 8) (he : Encodes w x ds) (hd : Decodes w ds y) : y = x := by
  obtain ⟨z, hz, he⟩ := he
  obtain ⟨rest, hrest, hd⟩ := hd
  have hspell : spell 8 y ++ rest = spell 8 x ++ replicate z false := hd.symm.trans he
  have hlen := congrArg List.length hspell
  simp only [length_append, length_spell, length_replicate] at hlen
  have hcount : y.length = x.length := by omega
  have hbits : spell 8 y = spell 8 x := (append_inj hspell (by simp [hcount])).1
  exact spell_injective hbits

def IsDigit (w : Nat) (d : UInt8) : Prop := d.toNat < 2 ^ w

instance : Decidable (IsDigit w d) := inferInstanceAs (Decidable (_ < _))

lemma isDigit_or : IsDigit w (d ||| e) ↔ IsDigit w d ∧ IsDigit w e := by
  exact ⟨fun h => ⟨Nat.left_le_or.trans_lt h, Nat.right_le_or.trans_lt h⟩,
    fun h => Nat.or_lt_two_pow h.1 h.2⟩

lemma isDigit_and (d : UInt8) (he : IsDigit w e) : IsDigit w (d &&& e) := by
  exact Nat.and_lt_two_pow _ he

lemma isDigit_shiftRight (d : UInt8) {k : UInt8} (hk : 8 ≤ w + k.toNat % 8) :
    IsDigit w (d >>> k) := by
  rw [IsDigit, UInt8.toNat_shiftRight, Nat.shiftRight_eq_div_pow]
  apply Nat.div_lt_of_lt_mul
  rw [Nat.mul_comm, ← Nat.pow_add]
  exact d.toNat_lt.trans_le (Nat.pow_le_pow_right (by decide) hk)

lemma IsDigit.getElem_eq_false (hd : IsDigit w d) {i : Nat} (hi : w ≤ i) (h : i < 8) :
    d.toBitVec[i] = false := by
  exact Nat.testBit_lt_two_pow (hd.trans_le (Nat.pow_le_pow_right (by decide) hi))

end Spelling
