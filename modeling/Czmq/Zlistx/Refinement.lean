import Czmq.Base.Machine
import Czmq.Zlistx.CursorList

/-! The ring of nodes refines the list with a cursor. -/

namespace Czmq.Zlistx

open Option Prod CursorList List Machine

variable {I : Type} {fn : ListCallbacks I} {t : Zlistx I} {a : CursorList I}
  {node : Nat} {item : Option I} {entries es fs : List (Nat × Option I)}

def listStep (t : Zlistx I) : ListOp I → Except Fault (ListResult I × Zlistx I)
  | .addStart node item => do
    let (h, t) ← t.addStart node item
    pure (.handle h, t)
  | .addEnd node item => do
    let (h, t) ← t.addEnd node item
    pure (.handle h, t)
  | .first => do
    let (item, t) ← t.first
    pure (.ptr item, t)
  | .next => do
    let (item, t) ← t.nextItem
    pure (.ptr item, t)
  | .prev => do
    let (item, t) ← t.prevItem
    pure (.ptr item, t)
  | .last => do
    let (item, t) ← t.last
    pure (.ptr item, t)
  | .head => do
    let item ← t.headItem
    pure (.ptr item, t)
  | .tail => do
    let item ← t.tailItem
    pure (.ptr item, t)
  | .find item => do
    let (h, t) ← t.find item
    pure (.handle h, t)
  | .detach handle => do
    let (item, t) ← t.detach handle
    pure (.ptr item, t)
  | .delete handle => do
    let (rc, t) ← t.delete handle
    pure (.rc rc, t)
  | .moveStart h => do
    let t ← t.moveStart h
    pure (.void, t)
  | .moveEnd h => do
    let t ← t.moveEnd h
    pure (.void, t)
  | .insert node item lowValue => do
    let (h, t) ← t.insert node item lowValue
    pure (.handle h, t)
  | .reorder h lowValue => do
    let t ← t.reorder h lowValue
    pure (.void, t)
  | .purge => do
    let t ← t.purge
    pure (.void, t)

def Live (t : Zlistx I) (h : Nat) : Prop := t.tag h = true ∧ h ≠ t.head

/-- Handles are live, a new node is at an unused address, and items pass their assertions. -/
def Valid (t : Zlistx I) : ListOp I → Prop
  | .addStart node item | .addEnd node item =>
    t.tag node = false ∧ item.isSome ∧ t.fn.CanDup item
  | .insert node item _ => t.tag node = false ∧ t.fn.CanDup item
  | .find item => item.isSome
  | .detach handle | .delete handle => ∀ h ∈ handle, t.Live h
  | .moveStart h | .moveEnd h | .reorder h _ => t.Live h
  | _ => True

instance (h : Nat) : Decidable (t.Live h) := inferInstanceAs (Decidable (_ ∧ _))

instance (fn : ListCallbacks I) (item : Option I) : Decidable (fn.CanDup item) :=
  inferInstanceAs (Decidable (_ → _))

instance (t : Zlistx I) (op : ListOp I) : Decidable (t.Valid op) :=
  match op with
  | .addStart .. | .addEnd .. => inferInstanceAs (Decidable (_ ∧ _ ∧ _))
  | .insert .. => inferInstanceAs (Decidable (_ ∧ _))
  | .find item => inferInstanceAs (Decidable (item.isSome = true))
  | .detach handle | .delete handle => inferInstanceAs (Decidable (∀ h ∈ handle, t.Live h))
  | .moveStart h | .moveEnd h | .reorder h _ => inferInstanceAs (Decidable (t.Live h))
  | .first | .next | .prev | .last | .head | .tail | .purge => inferInstanceAs (Decidable True)

/-- The nodes hold the entries in order, and the other fields agree with the list. -/
structure Refines (fn : ListCallbacks I) (t : Zlistx I) (a : CursorList I) : Prop where
  holds : Holds t a.entries
  size_eq : t.size = a.entries.length
  cursor_eq : t.cursor = a.cursor.getD t.head
  cursor_mem : ∀ h ∈ a.cursor, h ∈ handles a.entries
  destroyed_eq : t.destroyed = a.destroyed
  fn_eq : t.fn = fn

lemma tag_of_addEnd {t' : Zlistx I} {node n : Nat} {item : Option I}
    (h : t.addEnd node item = .ok (n, t')) :
    t'.tag = Function.update t.tag node true ∧ t'.head = t.head := by
  unfold addEnd at h
  split at h
  · cases h
  · obtain ⟨item', -, h⟩ := bind_eq_ok.mp h
    obtain ⟨t1, hrelink, h⟩ := bind_eq_ok.mp h
    unfold sNodeRelink at hrelink
    split at hrelink
    · cases hrelink
      cases h
      exact ⟨rfl, rfl⟩
    · cases hrelink

lemma refines_new (memory : Heap I) (head : Nat) (fn : ListCallbacks I) :
    Refines fn (new memory head fn) .empty := by
  refine ⟨⟨Ring.isRing_nil (Function.update_self ..) (Function.update_self ..), fun x => ?_,
    fun e he => absurd he not_mem_nil, Function.update_self ..⟩, rfl, rfl,
    fun _ hh => (not_mem_none _ hh).elim, rfl, rfl⟩
  simp [new, sNodeNew, Function.update_apply, CursorList.empty]

lemma duplicate_of_canDup (h : t.fn.CanDup item) : t.duplicate item = .ok (t.fn.dup item) := by
  unfold ListCallbacks.CanDup ListCallbacks.dup at h
  unfold duplicate ListCallbacks.dup
  cases hd : t.fn.duplicator with
  | none => rfl
  | some duplicator =>
    rw [hd] at h
    obtain ⟨x, hx⟩ := isSome_iff_exists.mp (h rfl)
    dsimp only at hx ⊢
    rw [hx]

lemma not_isNone_of_isSome (h : item.isSome) : ¬item.isNone = true := by
  rw [isNone_iff_eq_none]
  exact isSome_iff_ne_none.mp h

variable {x : Nat}

lemma Holds.mem_of_live (h : Holds t entries) (hx : t.Live x) : x ∈ handles entries :=
  (mem_cons.mp ((h.live x).mp hx.1)).resolve_left hx.2

lemma Holds.nodup (h : Holds t entries) : (handles entries).Nodup := h.ring.nodup.of_cons

lemma Holds.not_mem_left (h : Holds t (es ++ (x, item) :: fs)) : x ∉ handles es := by
  have hnodup := h.nodup
  rw [handles_append, nodup_append] at hnodup
  exact fun hes => hnodup.2.2 x hes x (mem_cons_self ..) rfl

lemma Holds.split_of_mem (h : Holds t entries) (hx : (x, item) ∈ entries) :
    ∃ es fs, entries = es ++ (x, item) :: fs ∧ x ∉ handles es := by
  obtain ⟨es, fs, rfl⟩ := append_of_mem hx
  exact ⟨es, fs, rfl, h.not_mem_left⟩

lemma Refines.exists_split (h : Refines fn t a) (hx : x ∈ handles a.entries) :
    ∃ es item fs, a.entries = es ++ (x, item) :: fs ∧ x ∉ handles es ∧
      Holds t (es ++ (x, item) :: fs) := by
  obtain ⟨⟨y, item⟩, he, rfl⟩ := mem_map.mp hx
  obtain ⟨es, fs, hsplit, hn⟩ := h.holds.split_of_mem he
  exact ⟨es, item, fs, hsplit, hn, hsplit ▸ h.holds⟩

lemma headD_handles (d : Nat) (es : List (Nat × Option I)) :
    (handles es).headD d = (es.head?.map fst).getD d := by
  cases es <;> rfl

lemma getLastD_handles (d : Nat) (es : List (Nat × Option I)) :
    (handles es).getLastD d = (es.getLast?.map fst).getD d := by
  rw [getLastD_eq_getLast?, handles, getLast?_map]

lemma Holds.next_head (h : Holds t entries) : t.next t.head = (handles entries).headD t.head := by
  rw [← nil_append entries] at h
  have hlinked := h.linked
  exact hlinked.1

lemma Holds.prev_head (h : Holds t entries) :
    t.prev t.head = (handles entries).getLastD t.head := by
  rw [← append_nil entries] at h
  have hlinked := h.linked
  exact hlinked.2

/-! ## Linking a loose node -/

lemma Loose.relink_before (h : Loose t (es ++ fs) node item) :
    t.sNodeRelink node (t.prev ((handles fs).headD t.head)) ((handles fs).headD t.head) =
      .ok (t.relinked node ((handles es).getLastD t.head) ((handles fs).headD t.head)) := by
  rw [h.linked.2]
  exact h.sNodeRelink

lemma Loose.relink_after (h : Loose t (es ++ fs) node item) :
    t.sNodeRelink node ((handles es).getLastD t.head) (t.next ((handles es).getLastD t.head)) =
      .ok (t.relinked node ((handles es).getLastD t.head) ((handles fs).headD t.head)) := by
  rw [h.linked.1]
  exact h.sNodeRelink

variable {test : Option I → Bool}

lemma find?_handles (hitems : ∀ e ∈ entries, t.item e.1 = e.2) :
    (handles entries).find? (fun x => test (t.item x)) =
      (entries.find? fun e => test e.2).map fst := by
  induction entries with
  | nil => rfl
  | cons e entries ih =>
    rw [handles_cons, find?_cons, find?_cons, hitems e (mem_cons_self ..)]
    cases test e.2 with
    | true => rfl
    | false => exact ih fun e he => hitems e (mem_cons_of_mem _ he)

lemma not_mem_handles_of_nodup {h : Nat} (hn : (h :: handles entries).Nodup) :
    h ∉ handles entries := (nodup_cons.mp hn).1

lemma seek_next (hring : Ring.IsRing t.next t.prev t.head (handles entries))
    (htag : ∀ x ∈ handles entries, t.tag x = true) (hitems : ∀ e ∈ entries, t.item e.1 = e.2)
    {n : Nat} (hn : entries.length < n) :
    t.seek t.next test n (t.next t.head) =
      .ok (((entries.find? fun e => test e.2).map fst).getD t.head) := by
  have hstart : t.next t.head = (handles entries).headD t.head := by
    have hfirst := hring
    rw [← nil_append (handles entries)] at hfirst
    exact hfirst.linked.1
  have hlength : (handles entries).length < n := by rw [handles, length_map]; exact hn
  rw [hstart, seek_eq (isChain_next hring) (not_mem_handles_of_nodup hring.nodup) htag hlength,
    find?_handles hitems]

lemma seek_prev (hring : Ring.IsRing t.next t.prev t.head (handles entries))
    (htag : ∀ x ∈ handles entries, t.tag x = true) (hitems : ∀ e ∈ entries, t.item e.1 = e.2)
    {n : Nat} (hn : entries.length < n) :
    t.seek t.prev test n (t.prev t.head) =
      .ok (((entries.reverse.find? fun e => test e.2).map fst).getD t.head) := by
  have hreverse : (handles entries).reverse = handles entries.reverse := map_reverse.symm
  have hstart : t.prev t.head = (handles entries.reverse).headD t.head := by
    have hlast := hring
    rw [← append_nil (handles entries)] at hlast
    rw [headD_handles, head?_reverse, ← getLastD_handles]
    exact hlast.linked.2
  have hchain := hring.chain
  have hrev : (t.head :: (handles entries ++ [t.head])).reverse =
      t.head :: (handles entries.reverse ++ [t.head]) := by simp [← hreverse]
  rw [← isChain_reverse, hrev, isChain_cons] at hchain
  replace hchain := hchain.2.imp fun _ _ hl => hl.2
  have hmem : ∀ x, x ∈ handles entries.reverse ↔ x ∈ handles entries := by
    intro x
    rw [← hreverse, mem_reverse]
  have hlength : (handles entries.reverse).length < n := by
    rw [handles, length_map, length_reverse]
    exact hn
  rw [hstart, seek_eq hchain (fun hx => not_mem_handles_of_nodup hring.nodup ((hmem _).mp hx))
    (fun x hx => htag x ((hmem x).mp hx)) hlength,
    find?_handles fun e he => hitems e (mem_reverse.mp he)]

lemma not_decide_nonpos (n : Int) : (!decide (n ≤ 0)) = decide (0 < n) := by
  by_cases h : n ≤ 0
  · simp [h]
  · simp [lt_of_not_ge h]

lemma reorder_of_loose {t1 : Zlistx I} (htag : t.tag node = true)
    (hun : t.sNodeRelink node (t.prev node) (t.next node) = .ok t1)
    (h : Loose t1 entries node item) (hsize : entries.length ≤ t1.size) (lowValue : Bool) :
    ∃ prev next, t.reorder node lowValue = .ok (t1.relinked node prev next) ∧
      Holds (t1.relinked node prev next)
        (place t1.fn entries (node, item) lowValue) := by
  have htags : ∀ x ∈ handles entries, t1.tag x = true := fun x hx =>
    (h.live x).mpr (mem_cons_of_mem _ (mem_cons_of_mem _ hx))
  unfold reorder
  rw [if_pos htag, hun, ok_bind]
  cases lowValue with
  | true =>
    rw [seek_next h.ring htags h.items (Nat.lt_succ_of_le hsize),
      find?_eq_head?_dropWhile_not, ← headD_handles, h.item_eq]
    simp only [not_decide_nonpos]
    -- the entries behind the place found, and those before it
    rw [← takeWhile_append_dropWhile (l := entries)] at h
    exact ⟨_, _, h.relink_before, h.relinked⟩
  | false =>
    rw [seek_prev h.ring htags h.items (Nat.lt_succ_of_le hsize),
      find?_eq_head?_dropWhile_not, h.item_eq]
    simp only [not_decide_nonpos]
    rw [← getLast?_reverse, ← getLastD_handles]
    rw [← rdropWhile_append_rtakeWhile (l := entries)] at h
    exact ⟨_, _, h.relink_after, h.relinked⟩

lemma perm_place (fn : ListCallbacks I) (entries : List (Nat × Option I)) (e : Nat × Option I)
    (lowValue : Bool) : (place fn entries e lowValue).Perm (e :: entries) := by
  have hmiddle : ∀ es fs : List (Nat × Option I), es ++ fs = entries →
      (es ++ e :: fs).Perm (e :: entries) := by
    rintro es fs rfl
    exact perm_middle
  unfold place
  split
  · exact hmiddle _ _ takeWhile_append_dropWhile
  · exact hmiddle _ _ (rdropWhile_append_rtakeWhile ..)

lemma Holds.nextOf_head (h : Holds t entries) :
    t.nextOf t.head = .ok ((entries.head?.map fst).getD t.head) := by
  rw [nextOf, if_pos h.tag_head, h.next_head, headD_handles]

lemma Holds.prevOf_head (h : Holds t entries) :
    t.prevOf t.head = .ok ((entries.getLast?.map fst).getD t.head) := by
  rw [prevOf, if_pos h.tag_head, h.prev_head, getLastD_handles]

lemma Holds.itemOf_eq (h : Holds t entries) {e : Option (Nat × Option I)}
    (he : ∀ x ∈ e, x ∈ entries) :
    t.itemOf ((e.map fst).getD t.head) = .ok (e.bind snd) := by
  cases e with
  | none => exact (if_pos h.tag_head).trans (congrArg _ h.head_item)
  | some x =>
    exact (if_pos (h.tag_of_mem (mem_handles (he x rfl)))).trans (congrArg _ (h.items x (he x rfl)))

/-! ## One lemma for each operation -/

section
variable (h : Refines fn t a)
include h

lemma Refines.linked {t1 : Zlistx I} {prev next : Nat}
    {entries : List (Nat × Option I)} (hnew : t1 = t.sNodeNew node item)
    (hholds : Holds (t1.relinked node prev next) entries)
    (hlength : entries.length = a.entries.length + 1) :
    Refines fn { t1.relinked node prev next with cursor := t.head, size := t.size + 1 }
      { a with entries := entries, cursor := none } := by
  subst hnew
  exact ⟨hholds.congr rfl rfl,
    (congrArg (· + 1) h.size_eq).trans hlength.symm, rfl,
    fun _ hh => (not_mem_none _ hh).elim, h.destroyed_eq, h.fn_eq⟩

lemma Refines.addStart (hv : t.Valid (.addStart node item)) :
    ∃ t', t.addStart node item = .ok (node, t') ∧
      Refines fn t' (a.step fn (.addStart node item)).2 := by
  obtain ⟨hnode, hitem, hdup⟩ := hv
  obtain rfl := h.fn_eq
  have hloose : Loose (t.sNodeNew node (t.fn.dup item)) ([] ++ a.entries) node (t.fn.dup item) :=
    h.holds.sNodeNew hnode _
  refine ⟨_, ?_, h.linked rfl hloose.relinked (by simp)⟩
  have hrelink := hloose.relink_after
  rw [handles_nil, getLastD_nil] at hrelink
  unfold Zlistx.addStart
  rw [if_neg (not_isNone_of_isSome hitem), duplicate_of_canDup hdup, ok_bind]
  dsimp only
  rw [hrelink]
  rfl

lemma Refines.addEnd (hv : t.Valid (.addEnd node item)) :
    ∃ t', t.addEnd node item = .ok (node, t') ∧
      Refines fn t' (a.step fn (.addEnd node item)).2 := by
  obtain ⟨hnode, hitem, hdup⟩ := hv
  obtain rfl := h.fn_eq
  have hloose : Loose (t.sNodeNew node (t.fn.dup item)) (a.entries ++ []) node (t.fn.dup item) := by
    rw [append_nil]
    exact h.holds.sNodeNew hnode _
  refine ⟨_, ?_, h.linked rfl hloose.relinked (by simp)⟩
  have hrelink := hloose.relink_before
  rw [handles_nil, headD_nil] at hrelink
  unfold Zlistx.addEnd
  rw [if_neg (not_isNone_of_isSome hitem), duplicate_of_canDup hdup, ok_bind]
  dsimp only
  rw [hrelink]
  rfl

lemma Refines.insert {lowValue : Bool}
    (hv : t.Valid (.insert node item lowValue)) :
    ∃ t', t.insert node item lowValue = .ok (node, t') ∧
      Refines fn t' (a.step fn (.insert node item lowValue)).2 := by
  obtain ⟨hnode, hdup⟩ := hv
  obtain rfl := h.fn_eq
  have hloose := h.holds.sNodeNew hnode (t.fn.dup item)
  have htag := (hloose.live node).mpr (mem_cons_self ..)
  -- the node is linked to itself, so taking it out of the list does nothing
  have hself : (t.sNodeNew node (t.fn.dup item)).sNodeRelink node
      ((t.sNodeNew node (t.fn.dup item)).prev node) ((t.sNodeNew node (t.fn.dup item)).next node) =
        .ok (t.sNodeNew node (t.fn.dup item)) := by
    rw [hloose.next_eq, hloose.prev_eq, sNodeRelink_of_live htag htag htag, relinked,
      Equiv.swap_self]
    rfl
  obtain ⟨prev, next, he, hholds⟩ := reorder_of_loose htag hself hloose h.size_eq.ge lowValue
  refine ⟨_, ?_, h.linked rfl hholds (perm_place ..).length_eq⟩
  unfold Zlistx.insert
  rw [duplicate_of_canDup hdup, ok_bind]
  dsimp only
  rw [he]
  rfl

lemma Refines.goTo {e : Option (Nat × Option I)}
    (he : ∀ x ∈ e, x ∈ a.entries) :
    ∃ t', t.moveCursor ((e.map fst).getD t.head) = .ok (e.bind snd, t') ∧
      Refines fn t' (a.goTo e).2 := by
  cases e with
  | none =>
    refine ⟨{ t with cursor := t.head }, ?_, ⟨h.holds.congr rfl rfl, h.size_eq, rfl, fun _ hh => (not_mem_none _ hh).elim,
      h.destroyed_eq, h.fn_eq⟩⟩
    change t.moveCursor t.head = _
    rw [moveCursor, if_pos rfl]
    rfl
  | some x =>
    have hmem := mem_handles (he x rfl)
    refine ⟨{ t with cursor := x.1 }, ?_, ⟨h.holds.congr rfl rfl, h.size_eq, rfl, fun _ hh => ?_, h.destroyed_eq, h.fn_eq⟩⟩
    · change t.moveCursor x.1 = _
      rw [moveCursor, if_neg (h.holds.ne_head hmem), itemOf, if_pos (h.holds.tag_of_mem hmem),
        h.holds.items x (he x rfl)]
      rfl
    · cases hh
      exact hmem

lemma Refines.first :
    ∃ t', t.first = .ok (a.entries.head?.bind snd, t') ∧
      Refines fn t' (a.step fn .first).2 := by
  unfold Zlistx.first
  rw [h.holds.nextOf_head]
  exact h.goTo fun _ hx => mem_of_head? hx

lemma Refines.last :
    ∃ t', t.last = .ok (a.entries.getLast?.bind snd, t') ∧
      Refines fn t' (a.step fn .last).2 := by
  unfold Zlistx.last
  rw [h.holds.prevOf_head]
  exact h.goTo fun _ hx => mem_of_getLast? hx

lemma Refines.exists_split_cursor (hx : a.cursor = some x) :
    t.cursor = x ∧ ∃ es item fs, a.entries = es ++ (x, item) :: fs ∧ x ∉ handles es ∧
      Holds t (es ++ (x, item) :: fs) := by
  refine ⟨?_, h.exists_split (h.cursor_mem x hx)⟩
  rw [h.cursor_eq, hx]
  rfl

lemma Refines.nextItem :
    ∃ t' item, t.nextItem = .ok (item, t') ∧ (a.step fn .next).1 = .ptr item ∧
      Refines fn t' (a.step fn .next).2 := by
  unfold Zlistx.nextItem step
  cases hc : a.cursor with
  | none =>
    have hcursor : t.cursor = t.head := by rw [h.cursor_eq, hc]; rfl
    rw [hcursor, h.holds.nextOf_head]
    obtain ⟨t', he, hr⟩ := h.goTo fun _ hx => mem_of_head? hx
    exact ⟨t', _, he, rfl, hr⟩
  | some x =>
    obtain ⟨hcursor, es, item, fs, hsplit, hn, hholds⟩ := h.exists_split_cursor hc
    have htag := h.holds.tag_of_mem (h.cursor_mem x hc)
    rw [hcursor, nextOf, if_pos htag, hholds.prev_next.2, headD_handles]
    dsimp only
    rw [after_eq hsplit hn]
    obtain ⟨t', he, hr⟩ := h.goTo fun y hy => by
      rw [hsplit]
      exact mem_append_right _ (mem_cons_of_mem _ (mem_of_head? hy))
    exact ⟨t', _, he, rfl, hr⟩

lemma Refines.prevItem :
    ∃ t' item, t.prevItem = .ok (item, t') ∧ (a.step fn .prev).1 = .ptr item ∧
      Refines fn t' (a.step fn .prev).2 := by
  unfold Zlistx.prevItem step
  cases hc : a.cursor with
  | none =>
    have hcursor : t.cursor = t.head := by rw [h.cursor_eq, hc]; rfl
    rw [hcursor, h.holds.prevOf_head]
    obtain ⟨t', he, hr⟩ := h.goTo fun _ hx => mem_of_getLast? hx
    exact ⟨t', _, he, rfl, hr⟩
  | some x =>
    obtain ⟨hcursor, es, item, fs, hsplit, hn, hholds⟩ := h.exists_split_cursor hc
    have htag := h.holds.tag_of_mem (h.cursor_mem x hc)
    rw [hcursor, prevOf, if_pos htag, hholds.prev_next.1, getLastD_handles]
    dsimp only
    rw [before_eq hsplit hn]
    obtain ⟨t', he, hr⟩ := h.goTo fun y hy => by
      rw [hsplit]
      exact mem_append_left _ (mem_of_getLast? hy)
    exact ⟨t', _, he, rfl, hr⟩

lemma Refines.find (hv : t.Valid (.find item)) :
    ∃ t' r, t.find item = .ok (r, t') ∧ (a.step fn (.find item)).1 = .handle r ∧
      Refines fn t' (a.step fn (.find item)).2 := by
  obtain rfl := h.fn_eq
  unfold Zlistx.find step
  have hsize : a.entries.length < t.size + 1 := by rw [h.size_eq]; exact Nat.lt_succ_self _
  rw [if_neg (not_isNone_of_isSome hv), seek_next h.holds.ring
    (fun x hx => h.holds.tag_of_mem hx) h.holds.items hsize]
  dsimp only
  cases hf : a.entries.find? fun e => t.fn.comparator e.2 item == 0 with
  | none =>
    refine ⟨t, none, ?_, rfl, h⟩
    exact if_pos rfl
  | some e =>
    have hmem := mem_handles (mem_of_find?_eq_some hf)
    refine ⟨_, some e.1, if_neg (h.holds.ne_head hmem), rfl, ⟨h.holds.congr rfl rfl,
      h.size_eq, rfl, fun _ hh => ?_, h.destroyed_eq, rfl⟩⟩
    cases hh
    exact hmem

lemma Refines.target_eq (handle : Option Nat) :
    handle.or (if t.next t.head = t.head then none else some (t.next t.head)) =
      a.target handle := by
  rw [h.holds.next_head]
  congr 1
  cases hentries : a.entries with
  | nil => exact if_pos rfl
  | cons e es =>
    refine if_neg (h.holds.ne_head ?_)
    rw [hentries]
    exact mem_cons_self ..

lemma Refines.cursor_iff (hx : x ∈ handles a.entries) : t.cursor = x ↔ a.cursor = some x := by
  rw [h.cursor_eq]
  cases a.cursor with
  | none => exact iff_of_false (h.holds.ne_head hx).symm (by simp)
  | some y => simp

lemma Refines.cursor_detachAt
    (hsplit : a.entries = es ++ (x, item) :: fs) (hn : x ∉ handles es) :
    (if t.cursor = x then t.prev x else t.cursor) = (a.detachAt x).cursor.getD t.head ∧
      ∀ y ∈ (a.detachAt x).cursor, y ∈ handles (es ++ fs) := by
  have hholds := h.holds
  rw [hsplit] at hholds
  have hat : t.cursor = x ↔ a.cursor = some x := h.cursor_iff (by rw [hsplit]; simp)
  unfold detachAt
  rw [before_eq hsplit hn]
  by_cases hc : a.cursor = some x
  · rw [if_pos (hat.mpr hc), if_pos hc, hholds.prev_next.1, getLastD_handles]
    refine ⟨rfl, fun y hy => ?_⟩
    obtain ⟨e, he, rfl⟩ := mem_map.mp hy
    rw [handles_append]
    exact mem_append_left _ (mem_handles (mem_of_getLast? he))
  · rw [if_neg (mt hat.mp hc), if_neg hc]
    refine ⟨h.cursor_eq, fun y hy => ?_⟩
    have hy' := h.cursor_mem y hy
    have hne : y ≠ x := by
      rintro rfl
      exact hc hy
    rw [hsplit] at hy'
    simp only [handles_append, handles_cons, mem_append, mem_cons] at hy' ⊢
    tauto

lemma Refines.detachAt {handle : Option Nat}
    (htarget : a.target handle = some x) (hsplit : a.entries = es ++ (x, item) :: fs)
    (hn : x ∉ handles es) :
    ∃ t', t.detach handle = .ok (item, t') ∧ Refines fn t' (a.detachAt x) := by
  obtain ⟨hcursor, hmem⟩ := h.cursor_detachAt hsplit hn
  have hholds := h.holds
  rw [hsplit] at hholds
  have htag : t.tag x = true := hholds.tag_of_mem (by simp)
  -- the cursor is moved first, and the node taken out of the list with the cursor moved
  obtain ⟨t0, ht0⟩ : ∃ t0 : Zlistx I,
      t0 = { t with cursor := if t.cursor = x then t.prev x else t.cursor } := ⟨_, rfl⟩
  have hmoved : (if t.cursor = x then t.prevOf t.cursor else .ok t.cursor) =
      .ok (if t.cursor = x then t.prev x else t.cursor) := by
    by_cases hc : t.cursor = x
    · rw [if_pos hc, if_pos hc, hc, prevOf, if_pos htag]
    · rw [if_neg hc, if_neg hc]
  have hholds0 : Holds t0 (es ++ (x, item) :: fs) := by
    rw [ht0]
    exact hholds.congr rfl rfl
  obtain ⟨t1, he, ht1, hloose⟩ := hholds0.sNodeRelink
  refine ⟨{ t1.freed x with size := t1.size - 1 }, ?_, ?_⟩
  · unfold detach
    rw [h.target_eq, htarget]
    dsimp only
    rw [ht0] at he
    rw [hmoved, ok_bind, if_pos htag]
    exact (congrArg (· >>= _) he).trans (congrArg (fun r => Except.ok (r, _)) hloose.item_eq)
  · have hentries : (a.detachAt x).entries = es ++ fs := by
      rw [detachAt_eq hsplit hn]
    have hsize : t1.size = a.entries.length := by rw [ht1, ht0]; exact h.size_eq
    refine ⟨?_, ?_, ?_, ?_, ?_, ?_⟩
    · rw [hentries]
      exact hloose.freed.congr rfl rfl
    · rw [hentries, hsize, hsplit]
      simp only [length_append, length_cons]
      omega
    · rw [ht1, ht0]
      exact hcursor
    · rw [hentries]
      exact hmem
    · rw [ht1, ht0]
      exact h.destroyed_eq
    · rw [ht1, ht0]
      exact h.fn_eq

lemma Refines.detach {handle : Option Nat}
    (hv : ∀ x ∈ handle, t.Live x) :
    ∃ t', t.detach handle = .ok ((a.detach handle).1, t') ∧
      Refines fn t' (a.detach handle).2 := by
  unfold CursorList.detach
  cases htarget : a.target handle with
  | none =>
    have hempty : a.entries = [] := by
      rw [target, or_eq_none_iff, map_eq_none_iff,
        head?_eq_none_iff] at htarget
      exact htarget.2
    refine ⟨t, ?_, h⟩
    unfold Zlistx.detach
    rw [h.target_eq, htarget]
    exact if_pos (by rw [h.size_eq, hempty]; rfl)
  | some x =>
    have hx : x ∈ handles a.entries := by
      cases handle with
      | some y =>
        obtain rfl : y = x := by simpa [target] using htarget
        exact h.holds.mem_of_live (hv y rfl)
      | none =>
        rw [target, none_or, map_eq_some_iff] at htarget
        obtain ⟨e, he, rfl⟩ := htarget
        exact mem_handles (mem_of_head? he)
    obtain ⟨es, item, fs, hsplit, hn, -⟩ := h.exists_split hx
    obtain ⟨t', he, hr⟩ := h.detachAt htarget hsplit hn
    dsimp only
    rw [itemAt_eq hsplit hn]
    exact ⟨t', he, hr⟩

lemma Refines.delete (handle : Option Nat)
    (hv : ∀ x ∈ handle, t.Live x) :
    ∃ t' rc, t.delete handle = .ok (rc, t') ∧ (a.step fn (.delete handle)).1 = .rc rc ∧
      Refines fn t' (a.step fn (.delete handle)).2 := by
  obtain ⟨t1, he, hr⟩ := h.detach hv
  unfold Zlistx.delete step
  rw [he, ok_bind]
  dsimp only
  by_cases hitem : (a.detach handle).1.isSome
  · rw [if_pos hitem, if_pos hitem, hr.fn_eq]
    refine ⟨_, 0, rfl, rfl, ?_⟩
    split
    · exact ⟨hr.holds.congr rfl rfl, hr.size_eq, hr.cursor_eq, hr.cursor_mem,
        congrArg _ hr.destroyed_eq, rfl⟩
    · exact hr
  · rw [if_neg hitem, if_neg hitem]
    exact ⟨t1, -1, rfl, rfl, hr⟩

lemma Refines.moved {t' : Zlistx I} {entries : List (Nat × Option I)}
    (hholds : Holds t' entries) (hperm : entries.Perm a.entries)
    (hframe : ∃ next prev, t' = { t with next := next, prev := prev }) :
    Refines fn t' { a with entries := entries } := by
  obtain ⟨next, prev, rfl⟩ := hframe
  refine ⟨hholds, h.size_eq.trans hperm.length_eq.symm, h.cursor_eq, fun x hx => ?_,
    h.destroyed_eq, h.fn_eq⟩
  exact (hperm.map fst).mem_iff.mpr (h.cursor_mem x hx)

lemma Refines.moveStart (hv : t.Live x) :
    ∃ t', t.moveStart x = .ok t' ∧ Refines fn t' (a.step fn (.moveStart x)).2 := by
  obtain ⟨es, item, fs, hsplit, hn, hholds⟩ := h.exists_split (h.holds.mem_of_live hv)
  have hperm : ((x, item) :: (es ++ fs)).Perm a.entries := by
    rw [hsplit]
    exact perm_middle.symm
  unfold Zlistx.moveStart step
  rw [if_pos hv.1, hholds.next_head]
  dsimp only
  rw [before_eq hsplit hn, after_eq hsplit hn, itemAt_eq hsplit hn]
  cases es with
  | nil =>
    rw [if_neg (by simp)]
    exact ⟨t, rfl, h.moved hholds hperm ⟨t.next, t.prev, rfl⟩⟩
  | cons e es =>
    have hne : x ≠ e.1 := fun he => hn (he ▸ mem_cons_self ..)
    obtain ⟨t1, he, ht1, hloose⟩ := hholds.sNodeRelink
    have hhead : t1.head = t.head := by rw [ht1]; rfl
    rw [← nil_append (e :: es ++ fs)] at hloose
    have hrelink := hloose.relink_before
    rw [cons_append, handles_cons, headD_cons] at hrelink
    rw [cons_append, handles_cons, headD_cons, if_pos hne, he, ok_bind, hrelink]
    refine ⟨_, rfl, h.moved hloose.relinked hperm ?_⟩
    rw [ht1]
    exact ⟨_, _, rfl⟩

lemma Refines.moveEnd (hv : t.Live x) :
    ∃ t', t.moveEnd x = .ok t' ∧ Refines fn t' (a.step fn (.moveEnd x)).2 := by
  obtain ⟨es, item, fs, hsplit, hn, hholds⟩ := h.exists_split (h.holds.mem_of_live hv)
  have hperm : (es ++ fs ++ [(x, item)]).Perm a.entries := by
    rw [hsplit]
    exact (perm_append_singleton ..).trans perm_middle.symm
  unfold Zlistx.moveEnd step
  rw [if_pos hv.1, hholds.prev_head]
  dsimp only
  rw [before_eq hsplit hn, after_eq hsplit hn, itemAt_eq hsplit hn]
  rcases eq_nil_or_concat' fs with rfl | ⟨fs, e, rfl⟩
  · have hlast : (handles (es ++ [(x, item)])).getLastD t.head = x := by simp
    rw [if_neg (by simp), append_nil]
    exact ⟨t, rfl, h.moved hholds (by simpa using hperm) ⟨t.next, t.prev, rfl⟩⟩
  · have hnodup := h.holds.nodup
    have hne : x ≠ e.1 := by
      rintro rfl
      rw [hsplit] at hnodup
      simp [nodup_append] at hnodup
    have hlast : ∀ gs d, (handles (gs ++ [e])).getLastD d = e.1 := by
      intro gs d
      rw [getLastD_handles, getLast?_concat]
      rfl
    have hjoin : es ++ (x, item) :: (fs ++ [e]) = (es ++ (x, item) :: fs) ++ [e] := by simp
    obtain ⟨t1, he, ht1, hloose⟩ := hholds.sNodeRelink
    rw [← append_assoc, ← append_nil (es ++ fs ++ [e])] at hloose
    have hrelink := hloose.relink_after
    have hlinked := hloose.relinked
    rw [hlast] at hrelink hlinked
    rw [hjoin, hlast, if_pos hne, he, ok_bind, hrelink]
    rw [← append_assoc] at hperm ⊢
    refine ⟨_, rfl, h.moved hlinked hperm ?_⟩
    rw [ht1]
    exact ⟨_, _, rfl⟩

lemma Refines.reorder (hv : t.Live x) (lowValue : Bool) :
    ∃ t', t.reorder x lowValue = .ok t' ∧ Refines fn t' (a.step fn (.reorder x lowValue)).2 := by
  obtain rfl := h.fn_eq
  obtain ⟨es, item, fs, hsplit, hn, hholds⟩ := h.exists_split (h.holds.mem_of_live hv)
  obtain ⟨t1, he, ht1, hloose⟩ := hholds.sNodeRelink
  have hsize : (es ++ fs).length ≤ t1.size := by
    rw [ht1]
    change _ ≤ t.size
    rw [h.size_eq, hsplit]
    simp only [length_append, length_cons]
    omega
  obtain ⟨prev, next, hreorder, hplaced⟩ := reorder_of_loose hv.1 he hloose hsize lowValue
  have hfn : t1.fn = t.fn := by rw [ht1]; rfl
  rw [hfn] at hplaced
  unfold step
  dsimp only
  rw [before_eq hsplit hn, after_eq hsplit hn, itemAt_eq hsplit hn]
  refine ⟨_, hreorder, h.moved hplaced ?_ ?_⟩
  · rw [hsplit]
    exact (perm_place ..).trans perm_middle.symm
  · rw [ht1]
    exact ⟨_, _, rfl⟩

lemma Refines.delete_first {e : Nat × Option I}
    {es : List (Nat × Option I)} (hentries : a.entries = e :: es) :
    ∃ t' rc a', t.delete none = .ok (rc, t') ∧ Refines fn t' a' ∧ a'.entries = es ∧
      a'.destroyed = if fn.destructor ∧ e.2.isSome then e.2 :: a.destroyed else a.destroyed := by
  obtain ⟨t', rc, he, -, hr⟩ :=
    h.delete none fun x hx => (not_mem_none x hx).elim
  have htarget : a.target none = some e.1 := by
    rw [target, hentries]
    rfl
  have hsplit : a.entries = [] ++ (e.1, e.2) :: es := hentries
  have hn : e.1 ∉ handles ([] : List (Nat × Option I)) := not_mem_nil
  have hdetach : a.detach none = (e.2, a.detachAt e.1) := by
    rw [CursorList.detach, htarget]
    dsimp only
    rw [itemAt_eq hsplit hn]
  refine ⟨t', rc, _, he, hr, ?_, ?_⟩
  · rw [(step_delete fn a none).1, hdetach, detachAt_eq hsplit hn]
    rfl
  · unfold step
    dsimp only
    rw [hdetach]
    by_cases hitem : e.2.isSome <;> by_cases hd : fn.destructor <;> simp [hitem, hd] <;> rfl

lemma Refines.purge :
    ∃ t', t.purge = .ok t' ∧ Refines fn t' (a.step fn .purge).2 := by
  unfold Zlistx.purge
  obtain ⟨n, hn⟩ : ∃ n, n = t.size := ⟨_, rfl⟩
  rw [← hn]
  -- every round deletes the first entry
  induction n generalizing t a with
  | zero =>
    have hempty : a.entries = [] := eq_nil_of_length_eq_zero (h.size_eq ▸ hn.symm)
    have hnone : a.cursor = none := by
      rw [eq_none_iff_forall_not_mem]
      intro x hx
      have hmem := h.cursor_mem x hx
      rw [hempty] at hmem
      exact not_mem_nil hmem
    refine ⟨t, ?_, ?_⟩
    · rw [Loop.untilDone_inr]
      rw [if_neg (by omega)]
      rfl
    · unfold step
      rw [hempty]
      exact ⟨hempty ▸ h.holds, hempty ▸ h.size_eq, hnone ▸ h.cursor_eq,
        fun _ hx => (not_mem_none _ hx).elim, by simpa using h.destroyed_eq, h.fn_eq⟩
  | succ n ih =>
    obtain ⟨e, es, hentries⟩ := exists_cons_of_length_eq_add_one (h.size_eq.symm.trans hn.symm)
    obtain ⟨t1, rc, a1, he, hr, hes, hdestroyed⟩ := h.delete_first hentries
    have hsize : n = t1.size := by
      have hlength := h.size_eq
      rw [hentries, length_cons] at hlength
      rw [hr.size_eq, hes]
      omega
    obtain ⟨t', he', hr'⟩ := ih hr hsize
    refine ⟨t', ?_, ?_⟩
    · rw [← he']
      refine Loop.untilDone_inl ?_ _
      rw [if_pos (by omega), he]
      rfl
    · have hsame : (a1.step fn .purge).2 = (a.step fn .purge).2 := by
        unfold step
        rw [hes, hentries, hdestroyed]
        by_cases hd : fn.destructor <;> by_cases hitem : e.2.isSome <;> simp [hd, hitem]
      exact hsame ▸ hr'

/-! ## Runs -/

lemma Refines.step {op : ListOp I} (hv : t.Valid op) :
    ∃ t', t.listStep op = .ok ((a.step fn op).1, t') ∧ Refines fn t' (a.step fn op).2 := by
  cases op with
  | addStart node item =>
    obtain ⟨t', he, hr⟩ := h.addStart hv
    exact ⟨t', by rw [listStep, he]; rfl, hr⟩
  | addEnd node item =>
    obtain ⟨t', he, hr⟩ := h.addEnd hv
    exact ⟨t', by rw [listStep, he]; rfl, hr⟩
  | first =>
    obtain ⟨t', he, hr⟩ := h.first
    exact ⟨t', by rw [listStep, he]; rfl, hr⟩
  | next =>
    obtain ⟨t', item, he, ha, hr⟩ := h.nextItem
    exact ⟨t', by rw [listStep, he, ha]; rfl, hr⟩
  | prev =>
    obtain ⟨t', item, he, ha, hr⟩ := h.prevItem
    exact ⟨t', by rw [listStep, he, ha]; rfl, hr⟩
  | last =>
    obtain ⟨t', he, hr⟩ := h.last
    exact ⟨t', by rw [listStep, he]; rfl, hr⟩
  | head =>
    refine ⟨t, ?_, h⟩
    rw [listStep, Zlistx.headItem, h.holds.nextOf_head, ok_bind,
      h.holds.itemOf_eq fun _ hx => mem_of_head? hx]
    rfl
  | tail =>
    refine ⟨t, ?_, h⟩
    rw [listStep, Zlistx.tailItem, h.holds.prevOf_head, ok_bind,
      h.holds.itemOf_eq fun _ hx => mem_of_getLast? hx]
    rfl
  | find item =>
    obtain ⟨t', r, he, ha, hr⟩ := h.find hv
    exact ⟨t', by rw [listStep, he, ha]; rfl, hr⟩
  | detach handle =>
    obtain ⟨t', he, hr⟩ := h.detach hv
    exact ⟨t', by rw [listStep, he]; rfl, hr⟩
  | delete handle =>
    obtain ⟨t', rc, he, ha, hr⟩ := h.delete handle hv
    exact ⟨t', by rw [listStep, he, ha]; rfl, hr⟩
  | moveStart x =>
    obtain ⟨t', he, hr⟩ := h.moveStart hv
    exact ⟨t', by rw [listStep, he]; rfl, hr⟩
  | moveEnd x =>
    obtain ⟨t', he, hr⟩ := h.moveEnd hv
    exact ⟨t', by rw [listStep, he]; rfl, hr⟩
  | insert node item lowValue =>
    obtain ⟨t', he, hr⟩ := h.insert hv
    exact ⟨t', by rw [listStep, he]; rfl, hr⟩
  | reorder x lowValue =>
    obtain ⟨t', he, hr⟩ := h.reorder hv lowValue
    exact ⟨t', by rw [listStep, he]; rfl, hr⟩
  | purge =>
    obtain ⟨t', he, hr⟩ := h.purge
    exact ⟨t', by rw [listStep, he]; rfl, hr⟩

lemma Refines.next_of_delete_cursor
    (hsplit : a.entries = es ++ (x, item) :: fs) (hc : t.cursor = x) :
    ∃ rc t1 t2, t.delete (some x) = .ok (rc, t1) ∧
      t1.nextItem = .ok (fs.head?.bind snd, t2) := by
  have hx : x ∈ handles a.entries := by rw [hsplit]; simp
  have hholds := h.holds
  rw [hsplit] at hholds
  obtain ⟨t1, rc, he, -, hr⟩ := h.delete (some x) fun y hy => by
    cases hy
    exact ⟨h.holds.tag_of_mem hx, h.holds.ne_head hx⟩
  obtain ⟨t2, next, he2, hnext, -⟩ := hr.nextItem
  refine ⟨rc, t1, t2, he, ?_⟩
  obtain ⟨hleft, hleftCursor⟩ := step_delete fn a (some x)
  change _ = (a.detachAt x).entries at hleft
  change _ = (a.detachAt x).cursor at hleftCursor
  rw [detachAt_eq hsplit hholds.not_mem_left] at hleft hleftCursor
  have hnodup := hholds.nodup
  rw [handles_append] at hnodup
  rw [step_next_eq_goTo fn hleft hnodup.of_append_left
    (hleftCursor.trans (if_pos ((h.cursor_iff hx).mp hc)))] at hnext
  rw [he2, ListResult.ptr.inj hnext]

end

/-- After every valid call of a run: answers and entries are those of the list with a cursor, the
nodes are one ring through the head, the size is right, the cursor is on the head or a node, and no
call touches other entries than its own. -/
theorem run_refines_cursorList (memory : Heap I) (head : Nat) (fn : ListCallbacks I)
    (ops : List (ListOp I)) (hvalid : StepsMeet listStep Valid (new memory head fn) ops) :
    ∀ pre, pre <+: ops → ∃ answers a t,
      runAbs (step fn) .empty pre = (answers, a) ∧
      run listStep (new memory head fn) pre = .ok (answers, t) ∧
      Refines fn t a ∧
      Ring.IsRing t.next t.prev t.head (handles a.entries) ∧
      (∀ x ∈ t.head :: handles a.entries, t.prev (t.next x) = x ∧ t.next (t.prev x) = x) ∧
      t.size = (handles a.entries).length ∧
      t.cursor ∈ t.head :: handles a.entries ∧
      (∀ op, others (a.touched op) (a.step fn op).2.entries =
        others (a.touched op) a.entries) ∧
      ∀ es x item fs, a.entries = es ++ (x, item) :: fs → t.cursor = x →
        ∃ rc t₁ t₂, t.delete (some x) = .ok (rc, t₁) ∧
          t₁.nextItem = .ok (fs.head?.bind snd, t₂) := by
  rintro pre ⟨post, rfl⟩
  obtain ⟨t, hrun, hr⟩ := run_refines (step fn)
    (fun _ _ _ h hv => h.step hv) (refines_new memory head fn) hvalid.left
  refine ⟨_, _, t, rfl, hrun, hr, hr.holds.ring, fun x hx => hr.holds.ring.inverse hx, ?_, ?_,
    step_others fn _, fun es x item fs hsplit hc => hr.next_of_delete_cursor hsplit hc⟩
  · rw [handles, length_map, hr.size_eq]
  · rw [hr.cursor_eq]
    cases hc : (runAbs (step fn) empty pre).2.cursor with
    | none => exact mem_cons_self ..
    | some x => exact mem_cons_of_mem _ (hr.cursor_mem x hc)

def byValue : ListCallbacks Nat where
  duplicator := none
  destructor := true
  comparator x y := (x.getD 0 : Int) - y.getD 0

def blank : Heap Nat := ⟨fun _ => 0, fun _ => 0, fun _ => none, fun _ => false⟩

/-- Three items, of which the one at the cursor is deleted and the rest put in order. -/
def sampleCalls : List (ListOp Nat) :=
  [.addEnd 1 (some 10), .addEnd 2 (some 20), .addStart 3 (some 5), .first, .next, .delete (some 1),
    .next, .moveStart 2, .insert 4 (some 7) false, .reorder 2 false, .last, .find (some 7),
    .detach none, .moveEnd 4, .head, .tail]

theorem run_refines_cursorList_sample :
    ∃ t, run listStep (new blank 0 byValue) sampleCalls =
        .ok ([.handle (some 1), .handle (some 2), .handle (some 3), .ptr (some 5), .ptr (some 10),
          .rc 0, .ptr (some 20), .void, .handle (some 4), .void, .ptr (some 20), .handle (some 4),
          .ptr (some 5), .void, .ptr (some 20), .ptr (some 7)], t) ∧
      Ring.IsRing t.next t.prev t.head [2, 4] := by
  have hvalid : StepsMeet listStep Valid (new blank 0 byValue) sampleCalls :=
    stepsMeet_of_checkSteps (by decide +kernel)
  obtain ⟨answers, a, t, habs, hrun, -, hring, -⟩ :=
    run_refines_cursorList blank 0 byValue sampleCalls hvalid sampleCalls prefix_rfl
  obtain ⟨hanswers, ha⟩ := Prod.mk.inj habs
  refine ⟨t, hrun.trans (congrArg (fun r => Except.ok (r, t)) ?_), ?_⟩
  · rw [← hanswers]
    decide
  · have hhandles : handles a.entries = [2, 4] := by
      rw [← ha]
      decide
    exact hhandles ▸ hring

end Czmq.Zlistx
