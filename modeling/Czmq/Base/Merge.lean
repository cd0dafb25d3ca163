import Mathlib.Data.List.Pairwise
import Mathlib.Order.Lattice
import Mathlib.Tactic.Common

/-! Two lists in the order of a key, gone through side by side: an element of one list alone, or a
pair with the same key, gives at most one result. -/

namespace Merge

open List

variable {α γ κ : Type} [LinearOrder κ]

def merge (key : α → κ) (left right : α → Option γ) (both : α → α → Option γ) :
    List α → List α → List γ
  | [], [] => []
  | x :: xs, [] => (left x).toList ++ merge key left right both xs []
  | [], y :: ys => (right y).toList ++ merge key left right both [] ys
  | x :: xs, y :: ys =>
    if key y < key x then (right y).toList ++ merge key left right both (x :: xs) ys
    else if key x < key y then (left x).toList ++ merge key left right both xs (y :: ys)
    else (both x y).toList ++ merge key left right both xs ys
termination_by xs ys => xs.length + ys.length

abbrev Ascending (key : α → κ) (xs : List α) : Prop := xs.Pairwise fun x y => key x < key y

section
variable {key : α → κ} {left right : α → Option γ} {both : α → α → Option γ} {xs ys : List α}

lemma Ascending.lt_of_lt {x y : α} (h : Ascending key (y :: ys)) (hlt : key x < key y) :
    ∀ z ∈ y :: ys, key x < key z := by
  intro z hz
  rcases mem_cons.mp hz with rfl | hz
  · exact hlt
  · exact hlt.trans ((pairwise_cons.mp h).1 z hz)

lemma mem_merge_iff (hxs : Ascending key xs) (hys : Ascending key ys) {g : γ} :
    g ∈ merge key left right both xs ys ↔
      (∃ x ∈ xs, (∀ y ∈ ys, key y ≠ key x) ∧ left x = some g) ∨
        (∃ y ∈ ys, (∀ x ∈ xs, key x ≠ key y) ∧ right y = some g) ∨
        ∃ x ∈ xs, ∃ y ∈ ys, key x = key y ∧ both x y = some g := by
  fun_induction merge key left right both xs ys with
  | case1 => simp
  | case2 x xs ih =>
    rw [mem_append, ih (pairwise_cons.mp hxs).2 hys]
    simp
  | case3 y ys ih =>
    rw [mem_append, ih hxs (pairwise_cons.mp hys).2]
    simp
  | case4 x xs y ys hlt ih =>
    have hne : ∀ z ∈ x :: xs, key z ≠ key y := fun z hz => (hxs.lt_of_lt hlt z hz).ne'
    grind
  | case5 x xs y ys hlt hlt' ih =>
    have hne : ∀ z ∈ y :: ys, key z ≠ key x := fun z hz => (hys.lt_of_lt hlt' z hz).ne'
    grind
  | case6 x xs y ys hlt hlt' ih =>
    have heq : key x = key y := le_antisymm (not_lt.mp hlt) (not_lt.mp hlt')
    obtain ⟨hx, hxs⟩ := pairwise_cons.mp hxs
    obtain ⟨hy, hys⟩ := pairwise_cons.mp hys
    have hne : ∀ z ∈ xs, key z ≠ key x := fun z hz => (hx z hz).ne'
    have hne' : ∀ z ∈ ys, key z ≠ key x := fun z hz => heq ▸ (hy z hz).ne'
    grind

section
variable {name : γ → κ} (hleft : ∀ x, ∀ g ∈ left x, name g = key x)
  (hright : ∀ y, ∀ g ∈ right y, name g = key y) (hboth : ∀ x y, ∀ g ∈ both x y, name g = key y)
include hleft hright hboth

lemma lt_of_mem_merge (hxs : Ascending key xs) (hys : Ascending key ys) {k : κ}
    (hk : ∀ z ∈ xs ++ ys, k < key z) {g : γ} (h : g ∈ merge key left right both xs ys) :
    k < name g := by
  rcases (mem_merge_iff hxs hys).mp h with ⟨x, hx, -, hg⟩ | ⟨y, hy, -, hg⟩ | ⟨x, -, y, hy, -, hg⟩
  · exact hleft x g hg ▸ hk x (mem_append_left _ hx)
  · exact hright y g hg ▸ hk y (mem_append_right _ hy)
  · exact hboth x y g hg ▸ hk y (mem_append_right _ hy)

omit hleft hright hboth in
lemma ascending_toList_append {o : Option γ} {gs : List γ} {k : κ} (ho : ∀ g ∈ o, name g = k)
    (hlt : ∀ g ∈ gs, k < name g) (hgs : Ascending name gs) : Ascending name (o.toList ++ gs) := by
  cases o with
  | none => exact hgs
  | some g =>
    refine pairwise_cons.mpr ⟨fun g' hg' => ?_, hgs⟩
    rw [ho g rfl]
    exact hlt g' hg'

lemma ascending_merge (hxs : Ascending key xs) (hys : Ascending key ys) :
    Ascending name (merge key left right both xs ys) := by
  have hlt : ∀ {k : κ} {xs ys : List α}, Ascending key xs → Ascending key ys →
      (∀ z ∈ xs ++ ys, k < key z) → ∀ g ∈ merge key left right both xs ys, k < name g :=
    fun hxs hys hk g hg => lt_of_mem_merge hleft hright hboth hxs hys hk hg
  fun_induction merge key left right both xs ys with
  | case1 => exact Pairwise.nil
  | case2 x xs ih =>
    obtain ⟨hx, hxs⟩ := pairwise_cons.mp hxs
    exact ascending_toList_append (hleft x) (hlt hxs hys (by simpa using hx)) (ih hxs hys)
  | case3 y ys ih =>
    obtain ⟨hy, hys⟩ := pairwise_cons.mp hys
    exact ascending_toList_append (hright y) (hlt hxs hys (by simpa using hy)) (ih hxs hys)
  | case4 x xs y ys hxy ih =>
    obtain ⟨hy, hys⟩ := pairwise_cons.mp hys
    refine ascending_toList_append (hright y) (hlt hxs hys ?_) (ih hxs hys)
    exact forall_mem_append.mpr ⟨hxs.lt_of_lt hxy, hy⟩
  | case5 x xs y ys hxy hyx ih =>
    obtain ⟨hx, hxs⟩ := pairwise_cons.mp hxs
    refine ascending_toList_append (hleft x) (hlt hxs hys ?_) (ih hxs hys)
    exact forall_mem_append.mpr ⟨hx, hys.lt_of_lt hyx⟩
  | case6 x xs y ys hxy hyx ih =>
    have heq : key x = key y := le_antisymm (not_lt.mp hxy) (not_lt.mp hyx)
    obtain ⟨hx, hxs⟩ := pairwise_cons.mp hxs
    obtain ⟨hy, hys⟩ := pairwise_cons.mp hys
    refine ascending_toList_append (hboth x y) (hlt hxs hys ?_) (ih hxs hys)
    exact forall_mem_append.mpr ⟨heq ▸ hx, hy⟩

end

end

end Merge
