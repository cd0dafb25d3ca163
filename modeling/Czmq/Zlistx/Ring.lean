import Czmq.Base.Ring
import Czmq.Zlistx.Nodes

/-! The nodes of a list as a ring. `Holds` gives its entries; with `Loose` there is one node besides
that is linked to itself, as between its making or removal and its insertion. -/

namespace Czmq.Zlistx

open List Function

variable {I : Type} {t : Zlistx I} {node : Nat} {item : Option I}
  {entries es fs : List (Nat × Option I)}

def handles (entries : List (Nat × Option I)) : List Nat := entries.map Prod.fst

@[simp] lemma handles_nil : handles ([] : List (Nat × Option I)) = [] := rfl

@[simp] lemma handles_cons (e : Nat × Option I) : handles (e :: es) = e.1 :: handles es := rfl

@[simp] lemma handles_append : handles (es ++ fs) = handles es ++ handles fs := map_append ..

lemma mem_handles {e : Nat × Option I} (he : e ∈ entries) : e.1 ∈ handles entries :=
  mem_map_of_mem he

structure Holds (t : Zlistx I) (entries : List (Nat × Option I)) : Prop where
  ring : Ring.IsRing t.next t.prev t.head (handles entries)
  live : ∀ x, t.tag x = true ↔ x ∈ t.head :: handles entries
  items : ∀ e ∈ entries, t.item e.1 = e.2
  head_item : t.item t.head = none

/-- The ring holds these entries, and `node` with `item` is linked to itself. -/
structure Loose (t : Zlistx I) (entries : List (Nat × Option I)) (node : Nat) (item : Option I) :
    Prop where
  ring : Ring.IsRing t.next t.prev t.head (handles entries)
  live : ∀ x, t.tag x = true ↔ x ∈ node :: t.head :: handles entries
  items : ∀ e ∈ entries, t.item e.1 = e.2
  head_item : t.item t.head = none
  not_mem : node ∉ t.head :: handles entries
  next_eq : t.next node = node
  prev_eq : t.prev node = node
  item_eq : t.item node = item

def relinked (t : Zlistx I) (node prev next : Nat) : Zlistx I :=
  { t with next := t.next ∘ Equiv.swap node prev, prev := t.prev ∘ Equiv.swap node next }

def freed (t : Zlistx I) (node : Nat) : Zlistx I :=
  { t with tag := update t.tag node false }

lemma sNodeRelink_of_live {prev next : Nat} (hnode : t.tag node = true)
    (hprev : t.tag prev = true) (hnext : t.tag next = true) :
    t.sNodeRelink node prev next = .ok (t.relinked node prev next) := by
  unfold sNodeRelink relinked
  rw [if_pos (by rw [hnode, hprev, hnext]; rfl), Equiv.swap_comm node prev,
    Equiv.swap_comm node next, Equiv.comp_swap_eq_update, Equiv.comp_swap_eq_update]

lemma getLastD_handles_mem (h : Nat) : (handles es).getLastD h ∈ h :: handles (es ++ fs) := by
  rw [handles_append]
  exact cons_subset_cons h (subset_append_left ..) (Ring.getLastD_mem h _)

lemma headD_handles_mem (h : Nat) : (handles fs).headD h ∈ h :: handles (es ++ fs) := by
  rw [handles_append]
  rcases mem_append.mp (Ring.headD_mem h (handles fs)) with hmem | hmem
  · exact mem_cons_of_mem _ (mem_append_right _ hmem)
  · rw [mem_singleton.mp hmem]
    exact mem_cons_self ..

lemma Holds.linked (h : Holds t (es ++ fs)) :
    Ring.Linked t.next t.prev ((handles es).getLastD t.head) ((handles fs).headD t.head) := by
  have hring := h.ring
  rw [handles_append] at hring
  exact hring.linked

lemma Loose.linked (h : Loose t (es ++ fs) node item) :
    Ring.Linked t.next t.prev ((handles es).getLastD t.head) ((handles fs).headD t.head) := by
  have hring := h.ring
  rw [handles_append] at hring
  exact hring.linked

lemma Holds.tag_head (h : Holds t entries) : t.tag t.head = true :=
  (h.live _).mpr (mem_cons_self ..)

lemma Holds.tag_of_mem (h : Holds t entries) {x : Nat} (hx : x ∈ handles entries) :
    t.tag x = true := (h.live _).mpr (mem_cons_of_mem _ hx)

lemma Holds.ne_head (h : Holds t entries) {x : Nat} (hx : x ∈ handles entries) : x ≠ t.head := by
  rintro rfl
  exact (nodup_cons.mp h.ring.nodup).1 hx

lemma Holds.congr {t' : Zlistx I} (h : Holds t entries) (hheap : t'.toHeap = t.toHeap)
    (hhead : t'.head = t.head) : Holds t' entries := by
  obtain ⟨hring, hlive, hitems, hitem⟩ := h
  rw [← hheap, ← hhead] at *
  exact ⟨hring, hlive, hitems, hitem⟩

/-! ## Making, linking, unlinking and freeing a node -/

lemma Holds.sNodeNew (h : Holds t entries) (hnode : t.tag node = false) (item : Option I) :
    Loose (t.sNodeNew node item) entries node item := by
  have hmem : node ∉ t.head :: handles entries := by
    intro hx
    rw [(h.live node).mpr hx] at hnode
    cases hnode
  have hne : ∀ x ∈ t.head :: handles entries, x ≠ node := fun x hx he => hmem (he ▸ hx)
  refine ⟨⟨h.ring.nodup, ?_⟩, fun x => ?_, fun e he => ?_, ?_, hmem, update_self ..,
    update_self .., update_self ..⟩
  · have hsub : ∀ x ∈ t.head :: (handles entries ++ [t.head]), x ≠ node := by
      intro x hx
      apply hne
      simp only [mem_cons, mem_append] at hx ⊢
      tauto
    refine Ring.isChain_linked_congr (fun x hx => ?_) (fun x hx => ?_) h.ring.chain
    · exact update_of_ne (hsub x (dropLast_subset _ hx)) ..
    · exact update_of_ne (hsub x (mem_of_mem_tail hx)) ..
  · change update t.tag node true x = true ↔ x ∈ node :: t.head :: handles entries
    rw [mem_cons, ← h.live x]
    by_cases hx : x = node <;> simp [hx]
  · change update t.item node item e.1 = e.2
    rw [update_of_ne (hne _ (mem_cons_of_mem _ (mem_handles he))), h.items e he]
  · change update t.item node item t.head = none
    rw [update_of_ne (hne _ (mem_cons_self ..)), h.head_item]

lemma Loose.relinked (h : Loose t (es ++ fs) node item) :
    Holds (t.relinked node ((handles es).getLastD t.head) ((handles fs).headD t.head))
      (es ++ (node, item) :: fs) := by
  have hring := h.ring
  have hmem := h.not_mem
  rw [handles_append] at hring hmem
  refine ⟨?_, fun x => ?_, fun e he => ?_, h.head_item⟩
  · rw [handles_append]
    exact hring.insert hmem h.next_eq h.prev_eq
  · refine (h.live x).trans ?_
    simp only [handles_append, handles_cons, mem_cons, mem_append]
    tauto
  · rcases mem_append.mp he with he | he
    · exact h.items e (mem_append_left _ he)
    · rcases mem_cons.mp he with rfl | he
      · exact h.item_eq
      · exact h.items e (mem_append_right _ he)

lemma Holds.relinked (h : Holds t (es ++ (node, item) :: fs)) :
    Loose (t.relinked node ((handles es).getLastD t.head) ((handles fs).headD t.head))
      (es ++ fs) node item := by
  have hring := h.ring
  rw [handles_append] at hring
  obtain ⟨hring', hnext, hprev⟩ := hring.remove
  have hnodup := hring.nodup
  refine ⟨by rw [handles_append]; exact hring', fun x => ?_, fun e he => ?_, h.head_item, ?_, hnext,
    hprev, h.items (node, item) (by simp)⟩
  · refine (h.live x).trans ?_
    simp only [handles_append, handles_cons, mem_cons, mem_append]
    tauto
  · refine h.items e ?_
    rcases mem_append.mp he with he | he
    · exact mem_append_left _ he
    · exact mem_append_right _ (mem_cons_of_mem _ he)
  · rw [handles_append]
    have hperm : (t.head :: (handles es ++ node :: handles fs)).Perm
        (node :: t.head :: (handles es ++ handles fs)) :=
      (perm_middle.cons t.head).trans (.swap _ _ _)
    exact (nodup_cons.mp (hperm.nodup_iff.mp hnodup)).1

lemma Loose.freed (h : Loose t entries node item) : Holds (t.freed node) entries := by
  refine ⟨h.ring, fun x => ?_, h.items, h.head_item⟩
  change update t.tag node false x = true ↔ _
  rw [update_apply]
  by_cases hx : x = node
  · rw [if_pos hx, hx]
    exact iff_of_false Bool.false_ne_true h.not_mem
  · rw [if_neg hx, h.live x, mem_cons]
    exact or_iff_right hx

lemma Holds.prev_next (h : Holds t (es ++ (node, item) :: fs)) :
    t.prev node = (handles es).getLastD t.head ∧ t.next node = (handles fs).headD t.head := by
  have hback := h.linked
  have hsplit : es ++ (node, item) :: fs = (es ++ [(node, item)]) ++ fs := by simp
  rw [hsplit] at h
  have hfore := h.linked
  rw [handles_append, handles_cons, handles_nil] at hfore
  refine ⟨hback.2, ?_⟩
  have hlast : (handles es ++ [node]).getLastD t.head = node := by simp
  rw [hlast] at hfore
  exact hfore.1

lemma Holds.sNodeRelink (h : Holds t (es ++ (node, item) :: fs)) :
    ∃ t', t.sNodeRelink node (t.prev node) (t.next node) = .ok t' ∧
      t' = t.relinked node ((handles es).getLastD t.head) ((handles fs).headD t.head) ∧
      Loose t' (es ++ fs) node item := by
  obtain ⟨hprev, hnext⟩ := h.prev_next
  refine ⟨_, ?_, rfl, h.relinked⟩
  rw [hprev, hnext]
  have htags : ∀ x ∈ t.head :: handles (es ++ (node, item) :: fs), t.tag x = true :=
    fun x hx => (h.live x).mpr hx
  refine sNodeRelink_of_live (htags _ (by simp)) (htags _ (getLastD_handles_mem _)) (htags _ ?_)
  have hsplit : es ++ (node, item) :: fs = (es ++ [(node, item)]) ++ fs := by simp
  rw [hsplit]
  exact headD_handles_mem _

lemma Loose.sNodeRelink (h : Loose t (es ++ fs) node item) :
    t.sNodeRelink node ((handles es).getLastD t.head) ((handles fs).headD t.head) =
      .ok (t.relinked node ((handles es).getLastD t.head) ((handles fs).headD t.head)) := by
  have htags : ∀ x ∈ t.head :: handles (es ++ fs), t.tag x = true :=
    fun x hx => (h.live x).mpr (mem_cons_of_mem _ hx)
  exact sNodeRelink_of_live ((h.live node).mpr (mem_cons_self ..))
    (htags _ (getLastD_handles_mem _)) (htags _ (headD_handles_mem _))

lemma seek_eq {link : Nat → Nat} {test : Option I → Bool} {xs : List Nat}
    (hchain : (xs ++ [t.head]).IsChain fun a b => link a = b) (hhead : t.head ∉ xs)
    (htag : ∀ x ∈ xs, t.tag x = true) {n : Nat} (hn : xs.length < n) :
    t.seek link test n (xs.headD t.head) =
      .ok ((xs.find? fun x => test (t.item x)).getD t.head) := by
  induction xs generalizing n with
  | nil =>
    obtain ⟨k, rfl⟩ : ∃ k, n = k + 1 := ⟨n - 1, by omega⟩
    rw [headD_nil, seek, if_pos rfl]
    rfl
  | cons x xs ih =>
    obtain ⟨k, rfl⟩ : ∃ k, n = k + 1 := ⟨n - 1, by rw [length_cons] at hn; omega⟩
    rw [cons_append, isChain_cons, Ring.head?_append_singleton] at hchain
    have hne : x ≠ t.head := fun he => hhead (he ▸ mem_cons_self ..)
    have hitem : t.itemOf x = .ok (t.item x) := if_pos (htag x (mem_cons_self ..))
    rw [headD_cons, seek, if_neg hne, hitem, ok_bind, find?_cons]
    cases htest : test (t.item x) with
    | true => rfl
    | false =>
      rw [length_cons] at hn
      rw [hchain.1 _ rfl]
      exact ih hchain.2 (fun hx => hhead (mem_cons_of_mem _ hx))
        (fun y hy => htag y (mem_cons_of_mem _ hy)) (by omega)

lemma isChain_next {nxt prv : Nat → Nat} {h : Nat} {xs : List Nat}
    (hr : Ring.IsRing nxt prv h xs) : (xs ++ [h]).IsChain fun a b => nxt a = b := by
  have hchain := hr.chain
  rw [isChain_cons] at hchain
  exact hchain.2.imp fun _ _ hl => hl.1

end Czmq.Zlistx
