import Mathlib.Data.List.Nodup
import Mathlib.Logic.Function.Basic

/-! Singly linked chains of nodes that end at a null pointer. -/

namespace Chain

variable {α : Type} {next : α → Option α} {p q : Option α} {x : α} {xs ys zs : List α}

def Linked (next : α → Option α) : Option α → List α → Prop
  | p, [] => p = none
  | p, x :: xs => p = some x ∧ Linked next (next x) xs

lemma Linked.head?_eq (h : Linked next p xs) : p = xs.head? := by
  cases xs with
  | nil => exact h
  | cons x xs => exact h.1

def link (next : α → Option α) (p : Option α) (xs : List α) : Option α :=
  (xs.getLast?.map next).getD p

lemma link_cons (x : α) (xs : List α) :
    link next p (x :: xs) = link next (next x) xs := by
  unfold link
  rw [List.getLast?_cons]
  cases xs.getLast? <;> rfl

lemma Linked.right (h : Linked next p (xs ++ ys)) : Linked next (link next p xs) ys := by
  induction xs generalizing p with
  | nil => exact h
  | cons x xs ih =>
    rw [link_cons]
    exact ih h.2

lemma linked_congr {next' : α → Option α} (hnext : ∀ x ∈ xs, next' x = next x)
    (h : Linked next p xs) : Linked next' p xs := by
  induction xs generalizing p with
  | nil => exact h
  | cons x xs ih =>
    refine ⟨h.1, ?_⟩
    rw [hnext x (List.mem_cons_self ..)]
    exact ih (fun y hy => hnext y (List.mem_cons_of_mem _ hy)) h.2

variable [DecidableEq α]

lemma Linked.relink (h : Linked next p (xs ++ x :: ys)) (hx : x ∉ xs) (hz : Linked next q zs)
    (hxz : x ∉ zs) : Linked (Function.update next x q) p (xs ++ x :: zs) := by
  have hrest : Linked (Function.update next x q) q zs :=
    linked_congr (fun z hz => Function.update_of_ne (fun he : z = x => hxz (he ▸ hz)) ..) hz
  induction xs generalizing p with
  | nil =>
    refine ⟨h.1, ?_⟩
    rw [Function.update_self]
    exact hrest
  | cons y xs ih =>
    rw [List.mem_cons, not_or] at hx
    refine ⟨h.1, ?_⟩
    rw [Function.update_of_ne (Ne.symm hx.1)]
    exact ih h.2 hx.2

end Chain
