import Mathlib.Data.List.Basic
import Mathlib.Data.List.Perm.Basic
import Mathlib.Tactic.Common

/-! An array of chains. The order inside a chain is kept; statements about the whole array are up to
permutation. -/

namespace Buckets

open List

variable {α β : Type}

def push (i : Nat) (x : α) (bs : List (List α)) : List (List α) := bs.modify i (x :: ·)

def Placed (place : α → Nat) (bs : List (List α)) : Prop :=
  ∀ i, ∀ x ∈ bs.getD i [], place x = i

variable {bs : List (List α)} {i : Nat}

lemma mem_flatten_of_mem_getD {x : α} (h : x ∈ bs.getD i []) : x ∈ bs.flatten := by
  rw [getD_eq_getElem?_getD] at h
  cases hb : bs[i]? with
  | none => simp [hb] at h
  | some c =>
    rw [hb] at h
    exact mem_flatten.mpr ⟨c, mem_of_getElem? hb, h⟩

lemma exists_mem_getD_of_mem_flatten {x : α} (h : x ∈ bs.flatten) :
    ∃ i < bs.length, x ∈ bs.getD i [] := by
  obtain ⟨c, hc, hx⟩ := mem_flatten.mp h
  obtain ⟨i, hi, rfl⟩ := mem_iff_getElem.mp hc
  exact ⟨i, hi, by rwa [getD_eq_getElem?_getD, getElem?_eq_getElem hi]⟩

variable {place : α → Nat}

lemma Placed.mem_getD (hp : Placed place bs) {x : α}
    (hx : x ∈ bs.flatten) : x ∈ bs.getD (place x) [] := by
  obtain ⟨i, _, hi⟩ := exists_mem_getD_of_mem_flatten hx
  rwa [hp i x hi]

lemma Placed.lt_length (hp : Placed place bs) {x : α}
    (hx : x ∈ bs.flatten) : place x < bs.length := by
  obtain ⟨i, hi, hxi⟩ := exists_mem_getD_of_mem_flatten hx
  rwa [hp i x hxi]

lemma getD_modify_self (f : List α → List α)
    (hi : i < bs.length) : (bs.modify i f).getD i [] = f (bs.getD i []) := by
  simp [getElem?_eq_getElem hi]

lemma getD_modify_ne (f : List α → List α) {j : Nat} (h : i ≠ j) :
    (bs.modify i f).getD j [] = bs.getD j [] := by
  simp [h]

lemma flatten_split (hi : i < bs.length) :
    ∃ l r, bs.flatten = l ++ bs.getD i [] ++ r ∧
      ∀ f, (bs.modify i f).flatten = l ++ f (bs.getD i []) ++ r := by
  induction bs generalizing i with
  | nil => simp at hi
  | cons c bs ih =>
    cases i with
    | zero => exact ⟨[], bs.flatten, by simp, fun f => by simp⟩
    | succ i =>
      obtain ⟨l, r, he, hf⟩ := ih (Nat.lt_of_succ_lt_succ hi)
      refine ⟨c ++ l, r, ?_, fun f => ?_⟩
      · simpa [append_assoc] using he
      · simpa [append_assoc] using hf f

lemma flatten_push_perm (hi : i < bs.length) (x : α) :
    (push i x bs).flatten.Perm (x :: bs.flatten) := by
  obtain ⟨l, r, he, hf⟩ := flatten_split hi
  rw [push, hf, he, append_assoc, append_assoc]
  exact perm_middle

lemma Placed.push (hp : Placed place bs)
    {x : α} (hx : place x = i) : Placed place (push i x bs) := by
  intro j y hy
  by_cases hij : i = j
  · subst hij
    by_cases hi : i < bs.length
    · rw [Buckets.push, getD_modify_self _ hi] at hy
      rcases mem_cons.mp hy with rfl | hy
      · exact hx
      · exact hp _ y hy
    · rw [Buckets.push, modify_eq_self (by omega)] at hy
      exact hp _ y hy
  · rw [Buckets.push, getD_modify_ne _ hij] at hy
    exact hp _ y hy

lemma Placed.modify_of_subset (hp : Placed place bs)
    (i : Nat) {f : List α → List α} (hf : ∀ c, f c ⊆ c) : Placed place (bs.modify i f) := by
  intro j y hy
  by_cases hij : i = j
  · subst hij
    by_cases hi : i < bs.length
    · rw [getD_modify_self _ hi] at hy
      exact hp _ y (hf _ hy)
    · rw [modify_eq_self (by omega)] at hy
      exact hp _ y hy
  · rw [getD_modify_ne _ hij] at hy
    exact hp _ y hy

lemma placed_replicate (place : α → Nat) (n : Nat) :
    Placed place (replicate n ([] : List α)) := by
  intro i x hx
  have := mem_flatten_of_mem_getD hx
  simp at this

def pushAll (place : β → Nat) (g : α → β) (l : List α) (bs : List (List β)) : List (List β) :=
  l.foldl (fun bs x => push (place (g x)) (g x) bs) bs

@[simp] lemma length_push (i : Nat) (x : α) (bs : List (List α)) :
    (push i x bs).length = bs.length := by simp [push]

@[simp] lemma length_pushAll (place : β → Nat) (g : α → β) (l : List α) (bs : List (List β)) :
    (pushAll place g l bs).length = bs.length := by
  induction l generalizing bs with
  | nil => rfl
  | cons x l ih => simpa [pushAll] using ih (push (place (g x)) (g x) bs)

lemma flatten_pushAll_perm (place : β → Nat) (g : α → β) (l : List α) (bs : List (List β))
    (h : ∀ x ∈ l, place (g x) < bs.length) :
    (pushAll place g l bs).flatten.Perm (l.map g ++ bs.flatten) := by
  induction l generalizing bs with
  | nil => simp [pushAll]
  | cons x l ih =>
    have hx : place (g x) < bs.length := h x (mem_cons_self ..)
    have hl : ∀ y ∈ l, place (g y) < (push (place (g x)) (g x) bs).length := by
      intro y hy
      simpa using h y (mem_cons_of_mem _ hy)
    calc (pushAll place g l (push (place (g x)) (g x) bs)).flatten.Perm _ := ih _ hl
      _ |>.Perm (l.map g ++ g x :: bs.flatten) := (flatten_push_perm hx _).append_left _
      _ |>.Perm ((x :: l).map g ++ bs.flatten) := by simp [perm_middle]

lemma Placed.pushAll {place : β → Nat} (g : α → β) (l : List α) {bs : List (List β)}
    (hp : Placed place bs) : Placed place (Buckets.pushAll place g l bs) := by
  induction l generalizing bs with
  | nil => exact hp
  | cons x l ih => exact ih (hp.push rfl)

lemma flatten_eq_getD (h : ∀ j, j ≠ i → bs.getD j [] = []) :
    bs.flatten = bs.getD i [] := by
  induction bs generalizing i with
  | nil => simp
  | cons c bs ih =>
    rw [flatten_cons]
    cases i with
    | zero =>
      have hrest : bs.flatten = [] := by
        rw [eq_nil_iff_forall_not_mem]
        intro x hx
        obtain ⟨j, _, hj⟩ := exists_mem_getD_of_mem_flatten hx
        have hempty : bs.getD j [] = [] := by simpa using h (j + 1) (by omega)
        rw [hempty] at hj
        cases hj
      simp [hrest]
    | succ i =>
      have hc : c = [] := by simpa using h 0 (by omega)
      have hrest := ih (i := i) fun j hj => by simpa using h (j + 1) (by omega)
      rw [hc, hrest]
      simp

variable {p : α → Bool}

lemma find?_flatten_of_ne (h : ∀ j, j ≠ i → ∀ x ∈ bs.getD j [], p x = false) :
    bs.flatten.find? p = (bs.getD i []).find? p := by
  induction bs generalizing i with
  | nil => simp
  | cons c bs ih =>
    rw [flatten_cons, find?_append]
    cases i with
    | zero =>
      have hrest : bs.flatten.find? p = none := by
        rw [find?_eq_none]
        intro x hx
        obtain ⟨j, _, hj⟩ := exists_mem_getD_of_mem_flatten hx
        simp [h (j + 1) (by omega) x (by simpa using hj)]
      simp [hrest]
    | succ i =>
      have hc : c.find? p = none := by
        rw [find?_eq_none]
        intro x hx
        simp [h 0 (by omega) x (by simpa using hx)]
      have hrest := ih (i := i) fun j hj x hx => h (j + 1) (by omega) x (by simpa using hx)
      rw [hc, hrest]
      simp

lemma Placed.find?_flatten (hp : Placed place bs)
    (h : ∀ x ∈ bs.flatten, p x = true → place x = i) :
    bs.flatten.find? p = (bs.getD i []).find? p := by
  refine find?_flatten_of_ne fun j hj x hx => ?_
  by_contra hpx
  have hxi := h x (mem_flatten_of_mem_getD hx) (by simpa using hpx)
  exact hj ((hp j x hx).symm.trans hxi)

lemma find?_perm {l l' : List α} (hperm : l.Perm l')
    (hone : l.Pairwise fun x y => ¬ (p x = true ∧ p y = true)) : l.find? p = l'.find? p := by
  induction hperm with
  | nil => rfl
  | cons x _ ih =>
    rw [find?_cons, find?_cons, ih (pairwise_cons.mp hone).2]
  | swap x y l =>
    have hyx := (pairwise_cons.mp hone).1 x (mem_cons_self ..)
    cases hx : p x <;> cases hy : p y <;> simp_all
  | trans h1 _ ih1 ih2 =>
    rw [ih1 hone, ih2 ((h1.pairwise_iff fun h => fun hp => h hp.symm).mp hone)]

end Buckets
