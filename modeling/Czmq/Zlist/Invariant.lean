import Czmq.Zlist.Nodes

/-! What the nodes of a `zlist_t` hold, kept by the functions that add and remove items. -/

namespace Czmq.Zlist

open List Function

variable {I : Type} {t : Zlist I} {node : Nat} {entries es fs : List (Nat × I)}

def nodes (entries : List (Nat × I)) : List Nat := entries.map Prod.fst

@[simp] lemma nodes_nil : nodes ([] : List (Nat × I)) = [] := rfl

@[simp] lemma nodes_cons (e : Nat × I) : nodes (e :: es) = e.1 :: nodes es := rfl

@[simp] lemma nodes_append : nodes (es ++ fs) = nodes es ++ nodes fs := map_append ..

variable {e : Nat × I}

lemma mem_nodes (he : e ∈ entries) : e.1 ∈ nodes entries :=
  mem_map_of_mem he

structure Holds (t : Zlist I) (entries : List (Nat × I)) : Prop where
  linked : Chain.Linked t.next t.head (nodes entries)
  nodup : (nodes entries).Nodup
  live : ∀ x, t.used x = true ↔ x ∈ nodes entries
  items : ∀ e ∈ entries, t.item e.1 = e.2
  tail_eq : t.tail = (nodes entries).getLast?
  size_eq : t.size = entries.length
  cursor_mem : ∀ x ∈ t.cursor, x ∈ nodes entries

lemma holds_new (next : Nat → Option Nat) (item : Nat → I) : Holds (new next item) [] where
  linked := rfl
  nodup := nodup_nil
  live x := by simp [new]
  items e he := absurd he not_mem_nil
  tail_eq := rfl
  size_eq := rfl
  cursor_mem x hx := (Option.not_mem_none x hx).elim

lemma Holds.not_mem_of_unused (h : Holds t entries) (hnode : t.used node = false) :
    node ∉ nodes entries := by
  intro hmem
  rw [(h.live node).mpr hmem] at hnode
  cases hnode

/-- The chain holds these entries, and `node` with `item` is in use beside it. -/
structure Loose (t : Zlist I) (entries : List (Nat × I)) (node : Nat) (item : I) : Prop where
  linked : Chain.Linked t.next t.head (nodes entries)
  nodup : (nodes entries).Nodup
  live : ∀ x, t.used x = true ↔ x ∈ node :: nodes entries
  items : ∀ e ∈ (node, item) :: entries, t.item e.1 = e.2
  tail_eq : t.tail = (nodes entries).getLast?
  size_eq : t.size = entries.length
  not_mem : node ∉ nodes entries

lemma Holds.nodeNew (h : Holds t entries) (hnode : t.used node = false) (item : I) :
    Loose (t.nodeNew node item) entries node item := by
  have hmem := h.not_mem_of_unused hnode
  have hne : ∀ x ∈ nodes entries, x ≠ node := fun x hx he => hmem (he ▸ hx)
  refine ⟨Chain.linked_congr (fun x hx => update_of_ne (hne x hx) ..) h.linked, h.nodup,
    fun x => ?_, forall_mem_cons.mpr ⟨update_self .., fun e he => ?_⟩, h.tail_eq,
    h.size_eq, hmem⟩
  · change update t.used node true x = true ↔ _
    rw [mem_cons, ← h.live x]
    by_cases hx : x = node <;> simp [hx]
  · exact (update_of_ne (hne _ (mem_nodes he)) ..).trans (h.items e he)

variable {t' : Zlist I} {item : I}

lemma Loose.holds {entries' : List (Nat × I)}
    (h : Loose t entries node item) (hperm : entries'.Perm ((node, item) :: entries))
    (hlinked : Chain.Linked t'.next t'.head (nodes entries'))
    (htail : t'.tail = (nodes entries').getLast?) (hused : t'.used = t.used)
    (hitem : t'.item = t.item) (hsize : t'.size = t.size + 1) (hcursor : t'.cursor = none) :
    Holds t' entries' := by
  have hnodes : (nodes entries').Perm (node :: nodes entries) := hperm.map Prod.fst
  refine ⟨hlinked, hnodes.nodup_iff.mpr (nodup_cons.mpr ⟨h.not_mem, h.nodup⟩), fun x => ?_,
    fun e he => ?_, htail, ?_, fun x hx => ?_⟩
  · rw [hused, h.live x, hnodes.mem_iff]
  · rw [hitem]
    exact h.items e (hperm.mem_iff.mp he)
  · rw [hsize, h.size_eq, hperm.length_eq]
    rfl
  · rw [hcursor] at hx
    cases hx

lemma Loose.used_node (h : Loose t entries node item) : t.used node = true :=
  (h.live node).mpr (mem_cons_self ..)

lemma Holds.append (h : Holds t entries) (hnode : t.used node = false) (strdup : I → I)
    (item : I) :
    ∃ t', t.append strdup node (some item) = .ok (0, t') ∧
      Holds t' (entries ++ [(node, t.copied strdup item)]) := by
  have hloose := h.nodeNew hnode (t.copied strdup item)
  have hperm := perm_append_singleton (node, t.copied strdup item) entries
  have hlast : some node = (nodes (entries ++ [(node, t.copied strdup item)])).getLast? := by simp
  unfold Zlist.append
  dsimp only
  obtain ⟨t1, ht1⟩ : ∃ t1, t1 = t.nodeNew node (t.copied strdup item) := ⟨_, rfl⟩
  have hnone : t1.next node = none := by
    rw [ht1]
    exact update_self ..
  rw [← ht1] at hloose ⊢
  rcases eq_nil_or_concat' entries with rfl | ⟨es, e, rfl⟩
  · have htail : t1.tail = none := hloose.tail_eq
    refine ⟨{ t1 with
      head := some node, tail := some node, next := update t1.next node none,
      size := t1.size + 1, cursor := none }, ?_,
      hloose.holds hperm ⟨rfl, update_self ..⟩ hlast rfl rfl rfl rfl⟩
    rw [htail, linkAfter, ok_bind, setNext, if_pos hloose.used_node]
    rfl
  · have htail : t1.tail = some e.1 := by
      rw [hloose.tail_eq]
      simp
    have hused : t1.used e.1 = true := (hloose.live e.1).mpr (by simp)
    refine ⟨{ t1 with
      tail := some node
      next := update (update t1.next e.1 (some node)) node none
      size := t1.size + 1, cursor := none }, ?_,
      hloose.holds hperm ?_ hlast rfl rfl rfl rfl⟩
    · rw [htail, linkAfter, setNext, if_pos hused, ok_bind, setNext, if_pos hloose.used_node]
      rfl
    · -- behind the last node hangs a chain of the new one alone
      have hlinked := hloose.linked
      have hnodup := hloose.nodup
      have hmem := hloose.not_mem
      rw [nodes_append] at hlinked hnodup hmem
      have hne : e.1 ≠ node := fun he => hmem (by simp [he])
      have hsingle : Chain.Linked (update t1.next node none) (some node) [node] :=
        ⟨rfl, update_self ..⟩
      have hkeep : Chain.Linked (update t1.next node none) t1.head (nodes es ++ [e.1]) :=
        Chain.linked_congr (fun x hx => update_of_ne (fun he : x = node => hmem (he ▸ hx)) ..)
          hlinked
      have hnot : e.1 ∉ nodes es := fun hx =>
        (nodup_append.mp hnodup).2.2 _ hx _ (mem_singleton_self _) rfl
      have hrelinked := hkeep.relink hnot hsingle (by simpa using hne)
      rw [update_comm hne.symm] at hrelinked
      simpa using hrelinked

lemma Holds.push (h : Holds t entries) (hnode : t.used node = false) (strdup : I → I)
    (item : I) :
    ∃ t', t.push strdup node (some item) = .ok (0, t') ∧
      Holds t' ((node, t.copied strdup item) :: entries) := by
  have hloose := h.nodeNew hnode (t.copied strdup item)
  unfold Zlist.push
  dsimp only
  obtain ⟨t1, ht1⟩ : ∃ t1, t1 = t.nodeNew node (t.copied strdup item) := ⟨_, rfl⟩
  rw [← ht1] at hloose ⊢
  have hlinked : Chain.Linked (update t1.next node t1.head) (some node)
      (nodes ((node, t.copied strdup item) :: entries)) := by
    refine ⟨rfl, ?_⟩
    rw [update_self]
    exact Chain.linked_congr
      (fun x hx => update_of_ne (fun he : x = node => hloose.not_mem (he ▸ hx)) ..)
      hloose.linked
  refine ⟨{ t1 with
    head := some node, tail := some (t1.tail.getD node), next := update t1.next node t1.head
    size := t1.size + 1, cursor := none }, ?_,
    hloose.holds (Perm.refl _) hlinked ?_ rfl rfl rfl rfl⟩
  · rw [setNext, if_pos hloose.used_node]
    cases htail : t1.tail <;> rfl
  · rw [nodes_cons, getLast?_cons, ← hloose.tail_eq]

lemma setNext_ok {next : Option Nat} (h : t.setNext node next = .ok t') :
    t' = { t with next := update t.next node next } := by
  unfold setNext at h
  split at h
  · exact (Except.ok.inj h).symm
  · cases h

lemma linkAfter_ok {prev next : Option Nat} (h : t.linkAfter prev next = .ok t') :
    ∃ links head, t' = { t with next := links, head := head } := by
  cases prev with
  | none =>
    cases h
    exact ⟨t.next, next, rfl⟩
  | some prev => exact ⟨_, t.head, setNext_ok h⟩

lemma append_ok {strdup : I → I} {rc : Int}
    (h : t.append strdup node (some item) = .ok (rc, t')) :
    ∃ links head, t' = { t.nodeNew node (t.copied strdup item) with
      next := links, head := head, tail := some node, size := t.size + 1, cursor := none } := by
  obtain ⟨t1, hlink, h⟩ := bind_eq_ok.mp h
  obtain ⟨t2, hset, h⟩ := bind_eq_ok.mp h
  obtain ⟨links, head, rfl⟩ := linkAfter_ok hlink
  obtain rfl := setNext_ok hset
  cases h
  exact ⟨_, head, rfl⟩

lemma push_ok {strdup : I → I} {rc : Int} (h : t.push strdup node (some item) = .ok (rc, t')) :
    ∃ links tail, t' = { t.nodeNew node (t.copied strdup item) with
      next := links, head := some node, tail := tail, size := t.size + 1, cursor := none } := by
  obtain ⟨t1, hset, h⟩ := bind_eq_ok.mp h
  obtain rfl := setNext_ok hset
  cases h
  exact ⟨_, _, rfl⟩

lemma pop_ok {item : Option I} (h : t.pop = .ok (item, t')) :
    ∃ head tail used size,
      t' = { t with head := head, tail := tail, used := used, size := size, cursor := none } := by
  unfold Zlist.pop at h
  split at h
  · cases h
    exact ⟨_, _, _, _, rfl⟩
  · obtain ⟨x, -, h⟩ := bind_eq_ok.mp h
    obtain ⟨next, -, h⟩ := bind_eq_ok.mp h
    cases h
    exact ⟨_, _, _, _, rfl⟩

lemma Holds.removed (h : Holds t (es ++ e :: fs))
    (hlinked : Chain.Linked t'.next t'.head (nodes (es ++ fs)))
    (htail : t'.tail = (nodes (es ++ fs)).getLast?)
    (hused : t'.used = update t.used e.1 false) (hitem : t'.item = t.item)
    (hsize : t'.size = t.size - 1) (hcursor : ∀ x ∈ t'.cursor, x ∈ nodes (es ++ fs)) :
    Holds t' (es ++ fs) := by
  have hperm : (nodes (es ++ e :: fs)).Perm (e.1 :: nodes (es ++ fs)) :=
    perm_middle.map Prod.fst
  obtain ⟨hnot, hnodup⟩ := nodup_cons.mp (hperm.nodup_iff.mp h.nodup)
  refine ⟨hlinked, hnodup, fun x => ?_, fun y hy => ?_, htail, ?_, hcursor⟩
  · rw [hused, update_apply]
    by_cases hx : x = e.1
    · rw [if_pos hx, hx]
      exact iff_of_false Bool.false_ne_true hnot
    · rw [if_neg hx, h.live x, hperm.mem_iff, mem_cons]
      exact or_iff_right hx
  · rw [hitem]
    refine h.items y ?_
    rcases mem_append.mp hy with hy | hy
    · exact mem_append_left _ hy
    · exact mem_append_right _ (mem_cons_of_mem _ hy)
  · rw [hsize, h.size_eq]
    simp only [length_append, length_cons]
    omega

lemma Holds.pop (h : Holds t entries) :
    ∃ t', t.pop = .ok (entries.head?.map Prod.snd, t') ∧ Holds t' entries.tail := by
  unfold Zlist.pop
  cases entries with
  | nil =>
    have hhead : t.head = none := h.linked
    exact ⟨{ t with cursor := none }, by rw [hhead]; rfl,
      { h with cursor_mem := fun x hx => (Option.not_mem_none x hx).elim }⟩
  | cons e es =>
    obtain ⟨hhead, hrest⟩ := h.linked
    have hused : t.used e.1 = true := (h.live _).mpr (mem_cons_self ..)
    have hnot := (nodup_cons.mp h.nodup).1
    have htail : (if t.tail = some e.1 then none else t.tail) = (nodes es).getLast? := by
      rw [h.tail_eq, nodes_cons, getLast?_cons]
      cases hlast : (nodes es).getLast? with
      | none => exact if_pos rfl
      | some x =>
        refine if_neg fun he => hnot ?_
        rw [← Option.some.inj he]
        exact mem_of_getLast? hlast
    have hsplit : Holds t ([] ++ e :: es) := h
    refine ⟨{ t with
      head := t.next e.1, tail := if t.tail = some e.1 then none else t.tail
      used := update t.used e.1 false, size := t.size - 1, cursor := none }, ?_,
      hsplit.removed hrest htail rfl rfl rfl
        fun x hx => (Option.not_mem_none x hx).elim⟩
    rw [hhead]
    dsimp only
    rw [itemOf, if_pos hused, nextOf, if_pos hused,
      h.items e (mem_cons_self ..)]
    rfl

lemma Holds.next_eq (h : Holds t (es ++ e :: fs)) : t.next e.1 = (nodes fs).head? := by
  have hlinked := h.linked
  rw [nodes_append] at hlinked
  exact hlinked.right.2.head?_eq

lemma Holds.used_mem (h : Holds t (es ++ e :: fs)) : t.used e.1 = true := (h.live _).mpr (by simp)

lemma Holds.lt_rounds (h : Holds t entries) : entries.length < t.size + 1 :=
  h.size_eq ▸ Nat.lt_succ_self _

lemma Holds.search_eq (h : Holds t (es ++ fs)) (test : I → Bool) {n : Nat}
    (hn : fs.length < n) :
    t.search test n (nodes es).getLast? (nodes fs).head? =
      .ok ((nodes (es ++ fs.takeWhile fun e => !test e.2)).getLast?,
        (nodes (fs.dropWhile fun e => !test e.2)).head?) := by
  induction fs generalizing es n with
  | nil =>
    obtain ⟨k, rfl⟩ : ∃ k, n = k + 1 := ⟨n - 1, by rw [length_nil] at hn; omega⟩
    rw [takeWhile_nil, dropWhile_nil, append_nil, nodes_nil, head?_nil, search]
  | cons f fs ih =>
    obtain ⟨k, rfl⟩ : ∃ k, n = k + 1 := ⟨n - 1, by omega⟩
    rw [nodes_cons, head?_cons, search, itemOf, if_pos h.used_mem, ok_bind, h.items f (by simp)]
    cases htest : test f.2 with
    | true =>
      rw [takeWhile_cons_of_neg (by simp [htest]),
        dropWhile_cons_of_neg (by simp [htest]), append_nil]
      rfl
    | false =>
      have hsplit : es ++ f :: fs = (es ++ [f]) ++ fs := by simp
      rw [nextOf, if_pos h.used_mem, ok_bind, h.next_eq,
        takeWhile_cons_of_pos (by simp [htest]), dropWhile_cons_of_pos (by simp [htest])]
      rw [hsplit] at h
      have hfound := ih h (n := k) (by rw [length_cons] at hn; omega)
      rw [nodes_append, nodes_cons, nodes_nil, getLast?_concat] at hfound
      rw [hfound]
      simp

def disposed (t : Zlist I) (node : Nat) : List (Option Nat × I) :=
  if t.autofree then [(none, t.item node)] else (t.freeFn node).toList.map fun f => (some f, t.item node)

lemma dispose_eq (t : Zlist I) (node : Nat) :
    t.dispose node = { t with freed := t.disposed node ++ t.freed } := by
  unfold dispose disposed
  split
  · rfl
  · cases t.freeFn node <;> rfl

structure SameFns (t t' : Zlist I) : Prop where
  freeFn : t'.freeFn = t.freeFn
  autofree : t'.autofree = t.autofree
  compareFn : t'.compareFn = t.compareFn

lemma Holds.unlinked (h : Holds t (es ++ e :: fs)) :
    ∃ t1, t.linkAfter (nodes es).getLast? (nodes fs).head? = .ok t1 ∧
      (∃ next head, t1 = { t with next := next, head := head }) ∧ t1.next e.1 = (nodes fs).head? ∧
      Chain.Linked t1.next t1.head (nodes (es ++ fs)) := by
  have hlinked := h.linked
  have hnodup := h.nodup
  rw [nodes_append, nodes_cons] at hlinked hnodup
  have hbehind := hlinked.right.2
  have hnext := h.next_eq
  rcases eq_nil_or_concat' es with rfl | ⟨es, d, rfl⟩
  · exact ⟨{ t with head := (nodes fs).head? }, rfl, ⟨t.next, _, rfl⟩, hnext, hnext ▸ hbehind⟩
  · rw [nodes_append, nodes_cons, nodes_nil, append_assoc] at hlinked hnodup
    have hused : t.used d.1 = true := (h.live _).mpr (by simp)
    simp only [cons_append, nil_append, nodup_append, nodup_cons,
      mem_cons, not_or] at hnodup
    have hd : d.1 ∉ nodes es := fun hx => hnodup.2.2 _ hx _ (.inl rfl) rfl
    refine ⟨{ t with next := update t.next d.1 (nodes fs).head? }, ?_,
      ⟨_, t.head, rfl⟩, ?_, ?_⟩
    · rw [nodes_append, nodes_cons, nodes_nil, getLast?_concat]
      exact if_pos hused
    · exact (update_of_ne (Ne.symm hnodup.2.1.1.1) ..).trans hnext
    · have hrelinked := Chain.Linked.relink hlinked hd (hnext ▸ hbehind) hnodup.2.1.1.2
      simpa using hrelinked

lemma getLast?_without (xs ys : List Nat) (x : Nat) :
    (if ys.head?.isNone then xs.getLast? else (xs ++ x :: ys).getLast?) = (xs ++ ys).getLast? := by
  rcases eq_nil_or_concat' ys with rfl | ⟨ys, y, rfl⟩
  · rw [append_nil]
    exact if_pos rfl
  · rw [if_neg (by cases ys <;> simp), ← cons_append, ← append_assoc,
      ← append_assoc, getLast?_concat, getLast?_concat]

lemma Holds.remove_found [DecidableEq I] (h : Holds t (es ++ e :: fs))
    (hbefore : ∀ x ∈ es, t.same item x.2 = false) (htest : t.same item e.2 = true) :
    ∃ t', t.remove item = .ok t' ∧ Holds t' (es ++ fs) ∧ SameFns t t' ∧
      t'.cursor = (if t.cursor = some e.1 then (nodes es).getLast? else t.cursor) ∧
      t'.freed = t.disposed e.1 ++ t.freed := by
  have hall : Holds t ([] ++ (es ++ e :: fs)) := h
  have hsearch := hall.search_eq (t.same item) h.lt_rounds
  have hpass : ∀ x ∈ es, (!t.same item x.2) = true := fun x hx => by rw [hbefore x hx]; rfl
  rw [nil_append, ← h.linked.head?_eq, takeWhile_append_of_pos hpass,
    dropWhile_append_of_pos hpass, takeWhile_cons_of_neg (by simp [htest]),
    dropWhile_cons_of_neg (by simp [htest]), append_nil, nodes_cons, head?_cons] at hsearch
  have hused := h.used_mem
  obtain ⟨t1, hset, ⟨next, head, ht1⟩, hnext1, hlinked1⟩ := h.unlinked
  have hused1 : t1.used e.1 = true := by rw [ht1]; exact hused
  change ∃ t', (t.search (t.same item) (t.size + 1) (nodes ([] : List (Nat × I))).getLast? t.head
    >>= _) = .ok t' ∧ _
  rw [hsearch, ok_bind]
  dsimp only
  rw [nextOf, if_pos hused, ok_bind, h.next_eq, hset, ok_bind, nextOf, if_pos hused1, hnext1]
  simp only [dispose_eq]
  refine ⟨_, rfl, h.removed hlinked1 ?_ (by rw [ht1]; rfl) (by rw [ht1]; rfl) (by rw [ht1]; rfl) ?_,
    ?_, by rw [ht1]; rfl, by rw [ht1]; rfl⟩
  · change (if (nodes fs).head?.isNone then (nodes es).getLast? else t1.tail) = _
    have htail : t1.tail = (nodes (es ++ e :: fs)).getLast? := by rw [ht1]; exact h.tail_eq
    rw [htail, nodes_append, nodes_append, nodes_cons, getLast?_without]
  · intro x hx
    change x ∈ (if t1.cursor = some e.1 then (nodes es).getLast? else t1.cursor) at hx
    rw [nodes_append]
    split at hx
    · exact mem_append_left _ (mem_of_getLast? hx)
    · next hne =>
      have hcursor : t1.cursor = t.cursor := by rw [ht1]
      rw [hcursor] at hx hne
      have hmem := h.cursor_mem x hx
      have hxe : x ≠ e.1 := by
        rintro rfl
        exact hne hx
      rw [nodes_append, nodes_cons, mem_append, mem_cons] at hmem
      rw [mem_append]
      tauto
  · rw [ht1]
    exact ⟨rfl, rfl, rfl⟩

lemma Holds.remove_absent [DecidableEq I] (h : Holds t entries)
    (hnone : ∀ x ∈ entries, t.same item x.2 = false) : t.remove item = .ok t := by
  have hall : Holds t ([] ++ entries) := h
  have hsearch := hall.search_eq (t.same item) h.lt_rounds
  have hdrop : entries.dropWhile (fun e => !t.same item e.2) = [] :=
    dropWhile_eq_nil_iff.mpr fun x hx => by rw [hnone x hx]; rfl
  rw [← h.linked.head?_eq, hdrop] at hsearch
  change (t.search (t.same item) (t.size + 1) (nodes ([] : List (Nat × I))).getLast? t.head >>= _) = _
  rw [hsearch]
  rfl

lemma split_first (entries : List (Nat × I)) (test : I → Bool) :
    (∀ x ∈ entries, test x.2 = false) ∨ ∃ es e fs, entries = es ++ e :: fs ∧
      (∀ x ∈ es, test x.2 = false) ∧ test e.2 = true := by
  have hjoin := takeWhile_append_dropWhile (p := fun e : Nat × I => !test e.2) (l := entries)
  have hbefore : ∀ x ∈ entries.takeWhile (fun e => !test e.2), test x.2 = false := by
    intro x hx
    simpa using mem_takeWhile_imp hx
  cases hrest : entries.dropWhile fun e => !test e.2 with
  | nil =>
    rw [hrest, append_nil] at hjoin
    rw [hjoin] at hbefore
    exact .inl hbefore
  | cons e fs =>
    have htest := head?_dropWhile_not (fun e : Nat × I => !test e.2) entries
    rw [hrest] at htest hjoin
    exact .inr ⟨_, e, fs, hjoin.symm, hbefore, by simpa using htest⟩

lemma purgeFrom_eq {xs : List Nat} {p : Option Nat} (hlinked : Chain.Linked t.next p xs)
    (hnodup : xs.Nodup) (hused : ∀ x ∈ xs, t.used x = true) {n : Nat} (hn : xs.length < n) :
    ∃ used, purgeFrom n t p =
        .ok { t with freed := xs.reverse.flatMap t.disposed ++ t.freed, used := used } ∧
      ∀ x, used x = true ↔ t.used x = true ∧ x ∉ xs := by
  induction xs generalizing t p n with
  | nil =>
    obtain ⟨k, rfl⟩ : ∃ k, n = k + 1 := ⟨n - 1, by rw [length_nil] at hn; omega⟩
    obtain rfl : p = none := hlinked
    exact ⟨t.used, rfl, fun x => by simp⟩
  | cons y xs ih =>
    obtain ⟨k, rfl⟩ : ∃ k, n = k + 1 := ⟨n - 1, by omega⟩
    obtain ⟨rfl, hrest⟩ := hlinked
    obtain ⟨hy, hnodup⟩ := nodup_cons.mp hnodup
    rw [length_cons] at hn
    rw [purgeFrom, nextOf, if_pos (hused y (mem_cons_self ..)), ok_bind, dispose_eq]
    obtain ⟨used, he, hx⟩ := ih (t := Zlist.free { t with freed := t.disposed y ++ t.freed } y) hrest
      hnodup
      (fun x hx => by
        have hne : x ≠ y := fun hxy => hy (hxy ▸ hx)
        exact (update_of_ne hne ..).trans (hused x (mem_cons_of_mem _ hx)))
      (n := k) (by omega)
    refine ⟨used, ?_, fun x => ?_⟩
    · rw [he, reverse_cons, flatMap_append, flatMap_singleton, append_assoc]
      rfl
    · rw [hx x]
      change update t.used y false x = true ∧ x ∉ xs ↔ _
      by_cases hxy : x = y <;> simp [hxy]

lemma Holds.purge (h : Holds t entries) :
    ∃ t', t.purge = .ok t' ∧ Holds t' [] ∧ SameFns t t' ∧ t'.cursor = none ∧
      t'.freed = (nodes entries).reverse.flatMap t.disposed ++ t.freed := by
  obtain ⟨used, he, hused⟩ := purgeFrom_eq h.linked h.nodup (fun x hx => (h.live x).mpr hx)
    (n := t.size + 1) (by rw [nodes, length_map, h.size_eq]; exact Nat.lt_succ_self _)
  refine ⟨{ t with
    freed := (nodes entries).reverse.flatMap t.disposed ++ t.freed, used := used, head := none,
    tail := none, cursor := none, size := 0 },
    by unfold Zlist.purge; rw [he]; rfl, ⟨rfl, nodup_nil, fun x => ?_,
    fun e hm => absurd hm not_mem_nil, rfl, rfl,
    fun x hx => (Option.not_mem_none x hx).elim⟩, ⟨rfl, rfl, rfl⟩, rfl, rfl⟩
  rw [hused x, h.live x]
  simp

lemma Holds.moveCursor (h : Holds t entries) {p : Option Nat}
    (hp : ∀ x ∈ p, x ∈ nodes entries) :
    t.moveCursor p = .ok (p.map t.item, { t with cursor := p }) ∧ Holds { t with cursor := p } entries := by
  refine ⟨?_, { h with cursor_mem := hp }⟩
  cases p with
  | none => rfl
  | some y =>
    unfold Zlist.moveCursor
    dsimp only
    rw [itemOf, if_pos ((h.live y).mpr (hp y rfl))]
    rfl

lemma Holds.head_mem (h : Holds t entries) : ∀ x ∈ t.head, x ∈ nodes entries := fun _ hx =>
  mem_of_head? (h.linked.head?_eq ▸ hx)

lemma Holds.tail_mem (h : Holds t entries) : ∀ x ∈ t.tail, x ∈ nodes entries := fun _ hx =>
  mem_of_getLast? (h.tail_eq ▸ hx)

lemma Holds.nextItem (h : Holds t entries) :
    ∃ p, (∀ x ∈ p, x ∈ nodes entries) ∧ t.nextItem = t.moveCursor p := by
  unfold Zlist.nextItem
  cases hc : t.cursor with
  | none => exact ⟨t.head, h.head_mem, rfl⟩
  | some x =>
    have hx := h.cursor_mem x hc
    obtain ⟨es, fs, hsplit⟩ := append_of_mem hx
    have hlinked := h.linked
    rw [hsplit] at hlinked
    have hnext : t.next x = fs.head? := hlinked.right.2.head?_eq
    refine ⟨fs.head?, fun y hy => ?_, ?_⟩
    · rw [hsplit]
      exact mem_append_right _ (mem_cons_of_mem _ (mem_of_head? hy))
    · dsimp only
      rw [nextOf, if_pos ((h.live x).mpr hx), ok_bind, hnext]

end Czmq.Zlist
