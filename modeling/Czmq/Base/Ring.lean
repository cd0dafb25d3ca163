import Mathlib.Data.List.Chain
import Mathlib.Data.List.Nodup
import Mathlib.Logic.Equiv.Basic

/-! Doubly linked rings through a head node. One exchange of links takes a node out of a ring, and
also puts a node that is linked to itself into one. -/

namespace Ring

open List Function Equiv

variable {α : Type} [DecidableEq α] {nxt prv : α → α} {h node : α} {xs ys : List α}

def Linked (nxt prv : α → α) (a b : α) : Prop := nxt a = b ∧ prv b = a

structure IsRing (nxt prv : α → α) (h : α) (xs : List α) : Prop where
  nodup : (h :: xs).Nodup
  chain : (h :: (xs ++ [h])).IsChain (Linked nxt prv)

omit [DecidableEq α] in
lemma isRing_nil (hn : nxt h = h) (hp : prv h = h) : IsRing nxt prv h [] :=
  ⟨nodup_singleton h, isChain_pair.mpr ⟨hn, hp⟩⟩

omit [DecidableEq α] in
lemma isChain_linked_congr {nxt' prv' : α → α} {l : List α}
    (hn : ∀ x ∈ l.dropLast, nxt' x = nxt x) (hp : ∀ x ∈ l.tail, prv' x = prv x)
    (hl : l.IsChain (Linked nxt prv)) : l.IsChain (Linked nxt' prv') := by
  induction l with
  | nil => exact .nil
  | cons a l ih =>
    cases l with
    | nil => exact .singleton a
    | cons b l =>
      rw [isChain_cons_cons] at hl ⊢
      rw [dropLast_cons_cons] at hn
      refine ⟨⟨?_, ?_⟩, ih (fun x hx => hn x (mem_cons_of_mem _ hx))
        (fun x hx => hp x (mem_of_mem_tail hx)) hl.2⟩
      · rw [hn a (mem_cons_self ..), hl.1.1]
      · rw [hp b (mem_cons_self ..), hl.1.2]

omit [DecidableEq α] in
lemma getLast?_cons_eq (h : α) (xs : List α) : (h :: xs).getLast? = some (xs.getLastD h) := by
  rw [getLast?_cons, getLastD_eq_getLast?]

omit [DecidableEq α] in
lemma head?_append_singleton (ys : List α) (h : α) : (ys ++ [h]).head? = some (ys.headD h) := by
  cases ys <;> rfl

omit [DecidableEq α] in
lemma isRing_append_iff : IsRing nxt prv h (xs ++ ys) ↔
    (h :: (xs ++ ys)).Nodup ∧ (h :: xs).IsChain (Linked nxt prv) ∧
      (ys ++ [h]).IsChain (Linked nxt prv) ∧ Linked nxt prv (xs.getLastD h) (ys.headD h) := by
  have hsplit : h :: (xs ++ ys ++ [h]) = (h :: xs) ++ (ys ++ [h]) := by simp
  have hiff : (h :: (xs ++ ys ++ [h])).IsChain (Linked nxt prv) ↔
      (h :: xs).IsChain (Linked nxt prv) ∧ (ys ++ [h]).IsChain (Linked nxt prv) ∧
        Linked nxt prv (xs.getLastD h) (ys.headD h) := by
    rw [hsplit, isChain_append, getLast?_cons_eq, head?_append_singleton]
    simp only [Option.mem_some_iff, forall_eq']
  exact ⟨fun hr => ⟨hr.nodup, hiff.mp hr.chain⟩, fun hr => ⟨hr.1, hiff.mpr hr.2⟩⟩

omit [DecidableEq α] in
lemma IsRing.linked (hr : IsRing nxt prv h (xs ++ ys)) :
    Linked nxt prv (xs.getLastD h) (ys.headD h) := (isRing_append_iff.mp hr).2.2.2

omit [DecidableEq α] in
lemma getLastD_mem (h : α) (xs : List α) : xs.getLastD h ∈ h :: xs :=
  mem_of_getLast? (getLast?_cons_eq h xs)

omit [DecidableEq α] in
lemma headD_mem (h : α) (ys : List α) : ys.headD h ∈ ys ++ [h] :=
  mem_of_head? (head?_append_singleton ys h)

omit [DecidableEq α] in
lemma IsRing.inverse (hr : IsRing nxt prv h xs) {x : α} (hx : x ∈ h :: xs) :
    prv (nxt x) = x ∧ nxt (prv x) = x := by
  have hlinked : ∀ ys zs, xs = ys ++ zs → Linked nxt prv (ys.getLastD h) (zs.headD h) := by
    rintro ys zs rfl
    exact hr.linked
  rcases mem_cons.mp hx with rfl | hx
  · obtain ⟨hnext, hback⟩ := hlinked [] xs rfl
    obtain ⟨hfore, hprev⟩ := hlinked xs [] (append_nil _).symm
    exact ⟨(congrArg prv hnext).trans hback, (congrArg nxt hprev).trans hfore⟩
  · obtain ⟨ys, zs, rfl⟩ := append_of_mem hx
    obtain ⟨hfore, hprev⟩ := hlinked ys (x :: zs) rfl
    obtain ⟨hnext, hback⟩ := hlinked (ys ++ [x]) zs (by simp)
    have hlast : (ys ++ [x]).getLastD h = x := by simp
    rw [hlast] at hnext hback
    exact ⟨(congrArg prv hnext).trans hback, (congrArg nxt hprev).trans hfore⟩

omit [DecidableEq α] in
lemma ne_getLastD_of_mem_dropLast (hn : (h :: xs).Nodup) {x : α} (hx : x ∈ (h :: xs).dropLast) :
    x ≠ xs.getLastD h := by
  have hlast : (h :: xs).dropLast ++ [xs.getLastD h] = h :: xs :=
    dropLast_append_getLast? _ (getLast?_cons_eq h xs)
  rw [← hlast, nodup_append] at hn
  exact hn.2.2 x hx _ (mem_singleton_self _)

omit [DecidableEq α] in
lemma ne_headD_of_mem_tail (hn : (ys ++ [h]).Nodup) {x : α} (hx : x ∈ (ys ++ [h]).tail) :
    x ≠ ys.headD h := by
  have hfirst : ys.headD h :: (ys ++ [h]).tail = ys ++ [h] :=
    cons_head?_tail (head?_append_singleton ys h)
  rw [← hfirst, nodup_cons] at hn
  rintro rfl
  exact hn.1 hx

lemma isChain_halves (nxt prv : α → α) (hn : (h :: (xs ++ ys)).Nodup) (hnode : node ∉ h :: (xs ++ ys)) :
    ((h :: xs).IsChain (Linked nxt prv) →
      (h :: xs).IsChain (Linked (nxt ∘ swap node (xs.getLastD h))
        (prv ∘ swap node (ys.headD h)))) ∧
    ((ys ++ [h]).IsChain (Linked nxt prv) →
      (ys ++ [h]).IsChain (Linked (nxt ∘ swap node (xs.getLastD h))
        (prv ∘ swap node (ys.headD h)))) := by
  have hxs : (h :: xs).Nodup := hn.sublist (by simp)
  have hys : (ys ++ [h]).Nodup := by
    have hperm : (ys ++ [h]).Perm (h :: ys) := perm_append_singleton h ys
    exact hperm.nodup_iff.mpr (hn.sublist (by simp))
  have hdisj : ∀ x ∈ xs, ∀ y ∈ ys ++ [h], x ≠ y := by
    intro x hx y hy hxy
    simp only [nodup_cons, mem_append, nodup_append, mem_singleton] at hn hy
    rcases hy with hy | rfl
    · exact hn.2.2.2 x hx y hy hxy
    · exact hn.1 (.inl (hxy ▸ hx))
  have hdisj' : ∀ x ∈ ys, ∀ y ∈ h :: xs, x ≠ y := by
    intro x hx y hy hxy
    rcases mem_cons.mp hy with rfl | hy
    · simp only [nodup_cons, mem_append] at hn
      exact hn.1 (.inr (hxy ▸ hx))
    · exact hdisj y hy x (mem_append_left _ hx) hxy.symm
  have hne : ∀ x ∈ h :: (xs ++ ys), x ≠ node := fun x hx he => hnode (he ▸ hx)
  constructor
  · refine isChain_linked_congr (fun x hx => ?_) (fun x hx => ?_)
    · have hmem : x ∈ h :: (xs ++ ys) :=
        cons_subset_cons h (subset_append_left xs ys) (dropLast_subset _ hx)
      rw [comp_apply, swap_apply_of_ne_of_ne (hne x hmem)
        (ne_getLastD_of_mem_dropLast hxs hx)]
    · have hmem : x ∈ h :: (xs ++ ys) := mem_cons_of_mem _ (mem_append_left _ hx)
      rw [comp_apply, swap_apply_of_ne_of_ne (hne x hmem)
        (hdisj x hx _ (headD_mem h ys))]
  · refine isChain_linked_congr (fun x hx => ?_) (fun x hx => ?_)
    · rw [dropLast_concat] at hx
      have hmem : x ∈ h :: (xs ++ ys) := mem_cons_of_mem _ (mem_append_right _ hx)
      rw [comp_apply, swap_apply_of_ne_of_ne (hne x hmem)
        (hdisj' x hx _ (getLastD_mem h xs))]
    · have hmem : x ∈ h :: (xs ++ ys) := by
        rcases mem_append.mp (mem_of_mem_tail hx) with hx | hx
        · exact mem_cons_of_mem _ (mem_append_right _ hx)
        · rw [mem_singleton.mp hx]
          exact mem_cons_self ..
      rw [comp_apply, swap_apply_of_ne_of_ne (hne x hmem)
        (ne_headD_of_mem_tail hys hx)]

lemma IsRing.insert (hr : IsRing nxt prv h (xs ++ ys)) (hnode : node ∉ h :: (xs ++ ys))
    (hn : nxt node = node) (hp : prv node = node) :
    IsRing (nxt ∘ swap node (xs.getLastD h)) (prv ∘ swap node (ys.headD h)) h
      (xs ++ node :: ys) := by
  obtain ⟨hnodup, hleft, hright, hlink⟩ := isRing_append_iff.mp hr
  obtain ⟨hl, hrt⟩ := isChain_halves nxt prv hnodup hnode
  rw [isRing_append_iff]
  refine ⟨?_, hl hleft, ?_, ?_, ?_⟩
  · have hperm : (h :: (xs ++ node :: ys)).Perm (node :: h :: (xs ++ ys)) :=
      (perm_middle.cons h).trans (.swap _ _ _)
    exact hperm.nodup_iff.mpr (nodup_cons.mpr ⟨hnode, hnodup⟩)
  · rw [cons_append, isChain_cons, head?_append_singleton]
    refine ⟨?_, hrt hright⟩
    rintro y ⟨⟩
    refine ⟨?_, ?_⟩
    · rw [comp_apply, swap_apply_left, hlink.1]
    · rw [comp_apply, swap_apply_right, hp]
  · change nxt (swap node _ _) = node
    rw [swap_apply_right, hn]
  · change prv (swap node _ node) = _
    rw [swap_apply_left, hlink.2]

lemma IsRing.remove (hr : IsRing nxt prv h (xs ++ node :: ys)) :
    IsRing (nxt ∘ swap node (xs.getLastD h)) (prv ∘ swap node (ys.headD h)) h
        (xs ++ ys) ∧
      nxt (swap node (xs.getLastD h) node) = node ∧
      prv (swap node (ys.headD h) node) = node := by
  obtain ⟨hnodup, hleft, hright, hlink⟩ := isRing_append_iff.mp hr
  have hperm : (h :: (xs ++ node :: ys)).Perm (node :: h :: (xs ++ ys)) :=
    (perm_middle.cons h).trans (.swap _ _ _)
  obtain ⟨hnode, hnodup'⟩ := nodup_cons.mp (hperm.nodup_iff.mp hnodup)
  obtain ⟨hl, hrt⟩ := isChain_halves nxt prv hnodup' hnode
  rw [cons_append, isChain_cons, head?_append_singleton] at hright
  have hnext : Linked nxt prv node (ys.headD h) := hright.1 _ rfl
  refine ⟨?_, ?_, ?_⟩
  · rw [isRing_append_iff]
    refine ⟨hnodup', hl hleft, hrt hright.2, ?_, ?_⟩
    · rw [comp_apply, swap_apply_right, hnext.1]
    · rw [comp_apply, swap_apply_right]
      exact hlink.2
  · rw [swap_apply_left]
    exact hlink.1
  · rw [swap_apply_left, hnext.2]

end Ring
