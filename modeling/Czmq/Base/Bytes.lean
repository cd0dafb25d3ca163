import Mathlib.Data.List.Lex
import Mathlib.Data.List.TakeWhile
import Mathlib.Data.UInt
import Mathlib.Tactic.Common
import Mathlib.Tactic.Ring

/-! Big-endian numbers, and blocks of memory. Addresses and sizes are 64-bit words, which wrap
around. -/

namespace Bytes

open List

def ascii (text : String) : List UInt8 := text.toList.map fun c => c.val.toUInt8

def toBytes : Nat → Nat → List UInt8
  | 0, _ => []
  | w + 1, n => UInt8.ofNat (n >>> (8 * w)) :: toBytes w n

def ofBytes (bs : List UInt8) : Nat := bs.foldl (fun n b => n * 256 + b.toNat) 0

@[simp] lemma length_toBytes (w n : Nat) : (toBytes w n).length = w := by
  induction w with
  | zero => rfl
  | succ w ih => rw [toBytes, length_cons, ih]

lemma foldl_toBytes (w n acc : Nat) :
    (toBytes w n).foldl (fun n b => n * 256 + b.toNat) acc = acc * 256 ^ w + n % 256 ^ w := by
  induction w generalizing acc with
  | zero => simp [toBytes, Nat.mod_one]
  | succ w ih =>
    have hbyte : (UInt8.ofNat (n >>> (8 * w))).toNat = n / 256 ^ w % 256 := by
      rw [UInt8.toNat_ofNat', Nat.shiftRight_eq_div_pow, Nat.pow_mul]
    rw [toBytes, foldl_cons, ih, hbyte, Nat.pow_succ, Nat.mod_mul]
    ring

variable {n : Nat}

lemma ofBytes_toBytes_of_lt {w : Nat} (h : n < 256 ^ w) : ofBytes (toBytes w n) = n := by
  rw [ofBytes, foldl_toBytes, Nat.zero_mul, Nat.zero_add, Nat.mod_eq_of_lt h]

lemma foldl_bytes (bs : List UInt8) (acc : Nat) :
    bs.foldl (fun n b => n * 256 + b.toNat) acc = acc * 256 ^ bs.length + ofBytes bs := by
  induction bs generalizing acc with
  | nil => simp [ofBytes]
  | cons b bs ih =>
    rw [ofBytes, foldl_cons, foldl_cons, ih, ih, length_cons]
    ring

lemma ofBytes_cons (b : UInt8) (bs : List UInt8) :
    ofBytes (b :: bs) = b.toNat * 256 ^ bs.length + ofBytes bs := by
  rw [ofBytes, foldl_cons, foldl_bytes, Nat.zero_add]

lemma ofBytes_lt (bs : List UInt8) : ofBytes bs < 256 ^ bs.length := by
  induction bs with
  | nil => exact Nat.one_pos
  | cons b bs ih =>
    have hb := b.toNat_lt
    calc ofBytes (b :: bs) = b.toNat * 256 ^ bs.length + ofBytes bs := ofBytes_cons b bs
      _ < (b.toNat + 1) * 256 ^ bs.length := by rw [Nat.succ_mul]; omega
      _ ≤ 256 * 256 ^ bs.length := Nat.mul_le_mul_right _ (by omega)
      _ = 256 ^ (b :: bs).length := by rw [length_cons, Nat.pow_succ, Nat.mul_comm]

variable {bs : List UInt8}

lemma eq_of_ofBytes_eq {cs : List UInt8} (hlen : bs.length = cs.length)
    (h : ofBytes bs = ofBytes cs) : bs = cs := by
  induction bs generalizing cs with
  | nil => exact (eq_nil_of_length_eq_zero hlen.symm).symm
  | cons b bs ih =>
    cases cs with
    | nil => cases hlen
    | cons c cs =>
      have htail : bs.length = cs.length := Nat.succ.inj hlen
      have hb := ofBytes_lt bs
      have hc := ofBytes_lt cs
      have hdiv := congrArg (· / 256 ^ bs.length) h
      have hmod := congrArg (· % 256 ^ bs.length) h
      simp only [ofBytes_cons, ← htail, Nat.mul_add_div (Nat.pow_pos (by decide : 0 < 256)),
        Nat.mul_comm _ (256 ^ bs.length), Nat.mul_add_mod, Nat.mod_eq_of_lt hb,
        Nat.mod_eq_of_lt (htail ▸ hc), Nat.div_eq_of_lt hb, Nat.div_eq_of_lt (htail ▸ hc)] at hdiv hmod
      rw [UInt8.toNat_inj.mp hdiv, ih htail hmod]

lemma toBytes_ofBytes {w : Nat} (h : bs.length = w) :
    toBytes w (ofBytes bs) = bs := by
  subst h
  apply eq_of_ofBytes_eq (length_toBytes _ _)
  rw [ofBytes_toBytes_of_lt (ofBytes_lt bs)]

def toLittle (w n : Nat) : List UInt8 := (toBytes w n).reverse

def ofLittle (bs : List UInt8) : Nat := ofBytes bs.reverse

@[simp] lemma length_toLittle (w n : Nat) : (toLittle w n).length = w := by simp [toLittle]

lemma ofLittle_toLittle {w : Nat} (h : n < 256 ^ w) : ofLittle (toLittle w n) = n := by
  rw [ofLittle, toLittle, reverse_reverse, ofBytes_toBytes_of_lt h]

def ptrAdd (p n : Nat) : Nat := (p + n) % 2 ^ 64

def ptrSub (p n : Nat) : Nat := (p + (2 ^ 64 - n % 2 ^ 64)) % 2 ^ 64

def int32 (n : Nat) : Int := (n : Int).bmod (2 ^ 32)

def sizeT (i : Int) : Nat := (i % 2 ^ 64).toNat

lemma ptrAdd_of_lt {p : Nat} (h : p + n < 2 ^ 64) : ptrAdd p n = p + n := by
  rw [ptrAdd, Nat.mod_eq_of_lt h]

lemma ptrSub_of_le {p : Nat} (h : n ≤ p) (hp : p < 2 ^ 64) : ptrSub p n = p - n := by
  rw [ptrSub]
  omega

lemma int32_of_lt (h : n < 2 ^ 31) : int32 n = n := by
  have hpos : (n : Int).bmod (2 ^ 32) = n := by
    rw [Int.bmod_def]
    omega
  exact hpos

lemma int32_bounds (n : Nat) : -2 ^ 31 ≤ int32 n ∧ int32 n < 2 ^ 31 ∧ int32 n ≤ n := by
  unfold int32
  rw [Int.bmod_def]
  omega

lemma sizeT_int32_of_lt (h : n < 2 ^ 31) : sizeT (int32 n) = n := by
  rw [int32_of_lt h, sizeT]
  omega

lemma sizeT_int32_of_ge (h : 2 ^ 31 ≤ n) (hn : n < 2 ^ 32) :
    sizeT (int32 n) = n + (2 ^ 64 - 2 ^ 32) := by
  have hneg : (n : Int).bmod (2 ^ 32) = (n : Int) - 2 ^ 32 := by
    rw [Int.bmod_def]
    omega
  unfold sizeT int32
  omega

/-- The bytes of an object from `base` on, inside the address space and smaller than half of it. -/
structure Block where
  base : Nat
  data : List UInt8
  end_lt : base + data.length < 2 ^ 64
  length_lt : data.length < 2 ^ 63

def Block.of (data : List UInt8) (h : data.length < 2 ^ 63) : Block where
  base := 1
  data := data
  end_lt := by omega
  length_lt := h

def Block.slice (b : Block) (p n : Nat) : Option (List UInt8) :=
  if b.base ≤ p ∧ p + n ≤ b.base + b.data.length then
    some ((b.data.drop (p - b.base)).take n)
  else none

/-! ## Strings and buffers -/

abbrev CString : Type := { s : List UInt8 // 0 ∉ s }

def cstr (buffer : List UInt8) : List UInt8 := buffer.takeWhile (· != 0)

lemma zero_not_mem_nil : (0 : UInt8) ∉ ([] : List UInt8) := not_mem_nil

lemma cstr_append (s : CString) (rest : List UInt8) : cstr (s.1 ++ 0 :: rest) = s.1 := by
  have hpass : ∀ c ∈ s.1, (c != 0) = true := by
    intro c hc
    rw [bne_iff_ne]
    rintro rfl
    exact s.2 hc
  rw [cstr, takeWhile_append_of_pos hpass, takeWhile_cons_of_neg (by simp),
    append_nil]

lemma zero_not_mem_cstr (buffer : List UInt8) : 0 ∉ cstr buffer := by
  intro h
  simpa using mem_takeWhile_imp h

def CString.ofBuffer (buffer : List UInt8) : CString := ⟨cstr buffer, zero_not_mem_cstr buffer⟩

lemma CString.ofBuffer_terminated (s : CString) : ofBuffer (s.1 ++ [0]) = s :=
  Subtype.ext (cstr_append s [])

lemma CString.length_ofBuffer_le (bs : List UInt8) : (ofBuffer (bs ++ [0])).1.length ≤ bs.length := by
  change ((bs ++ [0]).takeWhile (· != 0)).length ≤ bs.length
  have hne : (bs ++ [0]).takeWhile (· != 0) ≠ bs ++ [0] := by
    intro he
    have hmem : (0 : UInt8) ∈ (bs ++ [0]).takeWhile (· != 0) := by rw [he]; simp
    simpa using mem_takeWhile_imp hmem
  have hlt := ( takeWhile_prefix (· != 0) (l := bs ++ [0])).length_le
  rcases hlt.lt_or_eq with hlt | heq
  · rw [length_append, length_singleton] at hlt
    omega
  · exact absurd (( takeWhile_prefix _).eq_of_length heq) hne

def strcmp : List UInt8 → List UInt8 → Int
  | [], [] => 0
  | [], _ :: _ => -1
  | _ :: _, [] => 1
  | a :: s, b :: t => if a = b then strcmp s t else if a < b then -1 else 1

lemma strcmp_eq_zero_iff {s t : List UInt8} : strcmp s t = 0 ↔ s = t := by
  induction s generalizing t with
  | nil => cases t <;> simp [strcmp]
  | cons a s ih =>
    cases t with
    | nil => simp [strcmp]
    | cons b t =>
      rw [strcmp, cons.injEq]
      by_cases hab : a = b
      · rw [if_pos hab, ih]
        exact ⟨fun h => ⟨hab, h⟩, fun h => h.2⟩
      · rw [if_neg hab]
        refine ⟨fun h => ?_, fun h => absurd h.1 hab⟩
        split at h <;> omega

def codes (s : List UInt8) : List Nat := s.map UInt8.toNat

lemma codes_injective : Function.Injective codes :=
  map_injective_iff.mpr fun _ _ h => UInt8.toNat_inj.mp h

lemma strcmp_neg_iff {s t : List UInt8} : strcmp s t < 0 ↔ codes s < codes t := by
  induction s generalizing t with
  | nil => cases t <;> simp [strcmp, codes]
  | cons a s ih =>
    cases t with
    | nil => simp [strcmp, codes]
    | cons b t =>
      rw [strcmp, codes, codes, map_cons, map_cons, cons_lt_cons_iff, UInt8.toNat_inj,
        ← UInt8.lt_iff_toNat_lt]
      by_cases hab : a = b
      · rw [if_pos hab, ih]
        subst hab
        simp [codes]
      ·
        by_cases hlt : a < b <;> simp [hlt, hab]

lemma strcmp_pos_iff {s t : List UInt8} : 0 < strcmp s t ↔ codes t < codes s := by
  rw [← not_iff_not, not_lt, not_lt, le_iff_lt_or_eq, le_iff_lt_or_eq, strcmp_neg_iff,
    strcmp_eq_zero_iff, codes_injective.eq_iff]

def splice (buffer : List UInt8) (offset : Nat) (bs : List UInt8) : List UInt8 :=
  buffer.take offset ++ bs ++ buffer.drop (offset + bs.length)

section
variable {buffer bs : List UInt8} {offset : Nat} (h : offset + bs.length ≤ buffer.length)
include h

lemma length_splice : (splice buffer offset bs).length = buffer.length := by
  simp only [splice, length_append, length_take, length_drop]
  omega

lemma take_splice {n : Nat} (hn : n ≤ offset) :
    (splice buffer offset bs).take n = buffer.take n := by
  rw [splice, append_assoc, take_append_of_le_length (by rw [length_take]; omega),
    take_take, min_eq_left hn]

lemma take_splice_end :
    (splice buffer offset bs).take (offset + bs.length) = buffer.take offset ++ bs := by
  have hlen : (buffer.take offset ++ bs).length = offset + bs.length := by
    rw [length_append, length_take]
    omega
  rw [splice, take_append_of_le_length hlen.ge, take_of_length_le hlen.le]

end

end Bytes
