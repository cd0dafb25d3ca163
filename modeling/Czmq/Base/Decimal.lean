import Mathlib.Data.Nat.Digits.Lemmas
import Mathlib.Data.UInt
import Mathlib.Tactic.Common

/-! Decimal numerals in ASCII, as `printf` writes integers and `stdlib.h` reads them back: blanks
and a sign in front, up to the first byte that is no digit, the nearest number of the type beyond
its range. -/

namespace Decimal

open List

def isDigit (c : UInt8) : Bool := 48 ≤ c && c ≤ 57

def isSpace (c : UInt8) : Bool := c == 32 || (9 ≤ c && c ≤ 13)

def digit (d : Nat) : UInt8 := UInt8.ofNat (48 + d)

def print (n : Nat) : List UInt8 :=
  if n = 0 then [digit 0] else ((Nat.digits 10 n).map digit).reverse

def printInt (i : Int) : List UInt8 := if i < 0 then 45 :: print i.natAbs else print i.natAbs

def value (s : List UInt8) : Nat :=
  (s.takeWhile isDigit).foldl (fun n c => 10 * n + (c.toNat - 48)) 0

def signed : List UInt8 → Bool × Nat
  | 45 :: s => (true, value s)
  | 43 :: s => (false, value s)
  | s => (false, value s)

def strtol (s : List UInt8) : Int :=
  let (negative, n) := signed (s.dropWhile isSpace)
  if negative then max (-2 ^ 63) (-n) else min (2 ^ 63 - 1) n

def strtoul (s : List UInt8) : Nat :=
  let (negative, n) := signed (s.dropWhile isSpace)
  if 2 ^ 64 ≤ n then 2 ^ 64 - 1 else if negative then (2 ^ 64 - n) % 2 ^ 64 else n

def atoi (s : List UInt8) : Int := (strtol s).bmod (2 ^ 32)

/-! ## What is printed is read back -/

lemma isDigit_digit : ∀ {d : Nat}, d < 10 → isDigit (digit d) = true := by decide

lemma toNat_digit : ∀ {d : Nat}, d < 10 → (digit d).toNat - 48 = d := by decide

lemma not_isSpace_of_isDigit : ∀ {c : UInt8}, isDigit c = true → ¬ isSpace c = true := by
  intro c h
  simp only [isDigit, isSpace, Bool.and_eq_true, decide_eq_true_eq, Bool.or_eq_true, beq_iff_eq,
    ← UInt8.toNat_inj] at h ⊢
  change 48 ≤ c.toNat ∧ c.toNat ≤ 57 at h
  change ¬ (c.toNat = 32 ∨ 9 ≤ c.toNat ∧ c.toNat ≤ 13)
  omega

lemma print_ne_nil (n : Nat) : print n ≠ [] := by
  rw [print]
  split
  · simp
  · next h => simpa [Nat.digits_eq_nil_iff_eq_zero] using h

lemma isDigit_of_mem_print {n : Nat} {c : UInt8} (h : c ∈ print n) : isDigit c = true := by
  rw [print] at h
  split at h
  · rw [mem_singleton.mp h]
    exact isDigit_digit (by decide)
  · obtain ⟨d, hd, rfl⟩ := mem_map.mp (mem_reverse.mp h)
    exact isDigit_digit (Nat.digits_lt_base (by decide) hd)

lemma length_print_le {n k : Nat} (hk : 0 < k) (h : n < 10 ^ k) : (print n).length ≤ k := by
  rw [print]
  split
  · exact hk
  · rw [length_reverse, length_map]
    exact (Nat.digits_length_le_iff (by decide) n).mpr h

lemma length_printInt_le {i : Int} {k : Nat} (hk : 0 < k) (h : i.natAbs < 10 ^ k) :
    (printInt i).length ≤ k + 1 := by
  have hprint := length_print_le hk h
  rw [printInt]
  split
  · exact Nat.succ_le_succ hprint
  · omega

lemma foldl_print (n : Nat) : (print n).foldl (fun n c => 10 * n + (c.toNat - 48)) 0 = n := by
  rw [print]
  split
  · next h => rw [h]; rfl
  · -- from the most significant digit on, the fold is `Nat.ofDigits`
    have hfold : ∀ ds : List Nat, (∀ d ∈ ds, d < 10) →
        (ds.map digit).foldr (fun c n => 10 * n + (c.toNat - 48)) 0 = Nat.ofDigits 10 ds := by
      intro ds hds
      induction ds with
      | nil => rfl
      | cons d ds ih =>
        rw [map_cons, foldr_cons, ih fun x hx => hds x (mem_cons_of_mem _ hx),
          toNat_digit (hds d mem_cons_self), Nat.ofDigits_cons, Nat.add_comm]
    rw [foldl_reverse, hfold _ fun d hd => Nat.digits_lt_base (by decide) hd,
      Nat.ofDigits_digits]

section
variable {rest : List UInt8} (hrest : ∀ c ∈ rest.head?, isDigit c = false)
include hrest

lemma value_print_append (n : Nat) : value (print n ++ rest) = n := by
  have hstop : rest.takeWhile isDigit = [] := by
    cases rest with
    | nil => rfl
    | cons c rest => rw [takeWhile_cons_of_neg (by simp [hrest c rfl])]
  rw [value, takeWhile_append_of_pos fun c hc => isDigit_of_mem_print hc, hstop,
    append_nil, foldl_print]

lemma signed_print_append (n : Nat) :
    signed ((print n ++ rest).dropWhile isSpace) = (false, n) := by
  obtain ⟨c, s, hs⟩ := exists_cons_of_ne_nil (print_ne_nil n)
  have hdigit : isDigit c = true := isDigit_of_mem_print (by rw [hs]; exact mem_cons_self)
  have hvalue := value_print_append hrest n
  rw [hs, cons_append] at hvalue ⊢
  rw [dropWhile_cons_of_neg (not_isSpace_of_isDigit hdigit)]
  unfold signed
  split
  · next h => cases h; exact absurd hdigit (by decide)
  · next h => cases h; exact absurd hdigit (by decide)
  · rw [hvalue]

lemma signed_printInt_append (i : Int) :
    signed ((printInt i ++ rest).dropWhile isSpace) = (decide (i < 0), i.natAbs) := by
  rw [printInt]
  split
  · next h =>
    rw [cons_append, dropWhile_cons_of_neg (by decide)]
    simp [signed, value_print_append hrest, h]
  · next h => rw [signed_print_append hrest, decide_eq_false h]

lemma strtoul_print_append {n : Nat} (h : n < 2 ^ 64) : strtoul (print n ++ rest) = n := by
  rw [strtoul, signed_print_append hrest]
  simp only [Bool.false_eq_true, if_false]
  rw [if_neg (by omega)]

lemma strtol_printInt_append {i : Int} (h : -2 ^ 63 ≤ i) (h' : i < 2 ^ 63) :
    strtol (printInt i ++ rest) = i := by
  rw [strtol, signed_printInt_append hrest]
  dsimp only
  split
  · next hi => have := of_decide_eq_true hi; omega
  · next hi => have := of_decide_eq_false (Bool.not_eq_true _ ▸ hi); omega

end

end Decimal
