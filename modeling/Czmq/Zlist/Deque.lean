import Czmq.Base.Machine
import Czmq.Zlist.Invariant

/-! What the list of `zlist.c` is for: a sequence that grows and shrinks at its ends, and a cursor
at one of its positions or none. -/

namespace Czmq

open List Machine

structure Deque (I : Type) where
  items : List I
  cursor : Option Nat
  compareFn : Option (I → I → Int)
  autofree : Bool

/-- The calls. Those that add an item carry the address from `zmalloc` and what `strdup` returns for
a copy. -/
inductive DequeOp (I : Type) where
  | append (node : Nat) (item copy : I)
  | push (node : Nat) (item copy : I)
  | pop
  | remove (item : I)
  | first
  | next
  | last
  | head
  | tail
  | item
  | existsItem (item : I)
  | purge
  | size
  | comparefn (fn : Option (I → I → Int))
  | autofree

inductive DequeAnswer (I : Type) where
  | ptr (item : Option I)
  | rc (rc : Int)
  | found (found : Bool)
  | size (size : Nat)
  | void
  deriving DecidableEq

namespace Deque

variable {I : Type}

def empty : Deque I := ⟨[], none, none, false⟩

def stored (d : Deque I) (item copy : I) : I := if d.autofree then copy else item

def same [DecidableEq I] (d : Deque I) (item x : I) : Bool :=
  match d.compareFn with
  | some compare => compare x item == 0
  | none => x == item

def goTo (d : Deque I) (i : Nat) : DequeAnswer I × Deque I :=
  (.ptr d.items[i]?, { d with cursor := if i < d.items.length then some i else none })

def shifted (i c : Nat) : Option Nat :=
  if c < i then some c else if c = i then (if i = 0 then none else some (i - 1)) else some (c - 1)

def remove [DecidableEq I] (d : Deque I) (item : I) : Deque I :=
  match d.items.findIdx? (d.same item) with
  | none => d
  | some i => { d with items := d.items.eraseIdx i, cursor := d.cursor.bind (shifted i) }

def step [DecidableEq I] (d : Deque I) : DequeOp I → DequeAnswer I × Deque I
  | .append _ item copy => (.rc 0, { d with items := d.items ++ [d.stored item copy], cursor := none })
  | .push _ item copy => (.rc 0, { d with items := d.stored item copy :: d.items, cursor := none })
  | .pop => (.ptr d.items.head?, { d with items := d.items.tail, cursor := none })
  | .remove item => (.void, d.remove item)
  | .first => d.goTo 0
  | .next => d.goTo ((d.cursor.map (· + 1)).getD 0)
  | .last => d.goTo (d.items.length - 1)
  | .head => (.ptr d.items.head?, d)
  | .tail => (.ptr d.items.getLast?, d)
  | .item => (.ptr (d.cursor.bind fun i => d.items[i]?), d)
  | .existsItem item => (.found (d.items.any (d.same item)), d)
  | .purge => (.void, { d with items := [], cursor := none })
  | .size => (.size d.items.length, d)
  | .comparefn fn => (.void, { d with compareFn := fn })
  | .autofree => (.void, { d with autofree := true })

end Deque

namespace Zlist

variable {I : Type} {t : Zlist I} {d : Deque I} {entries es fs : List (Nat × I)}

def dequeStep [DecidableEq I] (t : Zlist I) : DequeOp I → Except Fault (DequeAnswer I × Zlist I)
  | .append node item copy => do
    let (rc, t) ← t.append (fun _ => copy) node (some item)
    pure (.rc rc, t)
  | .push node item copy => do
    let (rc, t) ← t.push (fun _ => copy) node (some item)
    pure (.rc rc, t)
  | .pop => do
    let (item, t) ← t.pop
    pure (.ptr item, t)
  | .remove item => do
    let t ← t.remove item
    pure (.void, t)
  | .first => do
    let (item, t) ← t.first
    pure (.ptr item, t)
  | .next => do
    let (item, t) ← t.nextItem
    pure (.ptr item, t)
  | .last => do
    let (item, t) ← t.last
    pure (.ptr item, t)
  | .head => do
    let item ← t.headItem
    pure (.ptr item, t)
  | .tail => do
    let item ← t.tailItem
    pure (.ptr item, t)
  | .item => do
    let item ← t.currentItem
    pure (.ptr item, t)
  | .existsItem item => do
    let found ← t.existsItem item
    pure (.found found, t)
  | .purge => do
    let t ← t.purge
    pure (.void, t)
  | .size => .ok (.size t.size, t)
  | .comparefn fn => .ok (.void, { t with compareFn := fn })
  | .autofree => .ok (.void, { t with autofree := true })

def DequeValid (t : Zlist I) : DequeOp I → Prop
  | .append node _ _ | .push node _ _ => t.used node = false
  | _ => True

def nodeAt (entries : List (Nat × I)) (i : Nat) : Option Nat := (nodes entries)[i]?

/-- The chain holds the items in order, and the cursor is at the node of its position. -/
structure Refines (t : Zlist I) (d : Deque I) (entries : List (Nat × I)) : Prop where
  holds : Holds t entries
  items_eq : d.items = entries.map Prod.snd
  cursor_eq : t.cursor = d.cursor.bind (nodeAt entries)
  cursor_lt : ∀ i ∈ d.cursor, i < entries.length
  compareFn_eq : t.compareFn = d.compareFn
  autofree_eq : t.autofree = d.autofree

lemma refines_new (next : Nat → Option Nat) (item : Nat → I) : Refines (new next item) .empty [] :=
  ⟨holds_new next item, rfl, rfl, fun _ h => (Option.not_mem_none _ h).elim, rfl, rfl⟩

lemma Refines.same_eq [DecidableEq I] (h : Refines t d entries) (item : I) : t.same item = d.same item := by
  funext x
  have hfn := h.compareFn_eq
  unfold same Deque.same
  generalize t.compareFn = fn at hfn ⊢
  subst hfn
  cases d.compareFn <;> rfl

lemma Refines.length_eq (h : Refines t d entries) : d.items.length = entries.length := by
  rw [h.items_eq, length_map]

/-! ## One lemma for each kind of call -/

lemma Holds.map_item_nodeAt (h : Holds t entries) (i : Nat) :
    (nodeAt entries i).map t.item = (entries.map Prod.snd)[i]? := by
  rw [nodeAt, nodes, getElem?_map, getElem?_map]
  cases he : entries[i]? with
  | none => rfl
  | some e => exact congrArg some (h.items e (mem_of_getElem? he))

lemma Refines.goTo (h : Refines t d entries) (i : Nat) :
    ∃ t', t.moveCursor (nodeAt entries i) = .ok (d.items[i]?, t') ∧ Refines t' (d.goTo i).2 entries := by
  obtain ⟨he, h'⟩ := h.holds.moveCursor (p := nodeAt entries i) fun x hx => mem_of_getElem? hx
  refine ⟨_, ?_, h', h.items_eq, ?_, fun j hj => ?_, h.compareFn_eq, h.autofree_eq⟩
  · rw [he, h.holds.map_item_nodeAt, h.items_eq]
  · show nodeAt entries i = (if i < d.items.length then some i else none).bind (nodeAt entries)
    rw [h.length_eq]
    split
    · rfl
    · next hi => exact getElem?_eq_none (by simpa [nodes] using hi)
  · replace hj : (if i < d.items.length then some i else none) = some j := hj
    rw [h.length_eq] at hj
    split at hj
    · next hi => exact Option.some.inj hj ▸ hi
    · cases hj

lemma Holds.head_eq (h : Holds t entries) : t.head = nodeAt entries 0 := by
  rw [h.linked.head?_eq, nodeAt, head?_eq_getElem?]

lemma Holds.tail_eq_nodeAt (h : Holds t entries) : t.tail = nodeAt entries (entries.length - 1) := by
  rw [h.tail_eq, nodeAt, getLast?_eq_getElem?, nodes, length_map]

lemma Holds.next_nodeAt (h : Holds t entries) {i x : Nat} (hx : nodeAt entries i = some x) :
    t.nextOf x = .ok (nodeAt entries (i + 1)) := by
  obtain ⟨hi, hget⟩ := List.getElem?_eq_some_iff.mp hx
  have hmem : x ∈ nodes entries := mem_of_getElem? hx
  have hsplit : nodes entries = (nodes entries).take i ++ x :: (nodes entries).drop (i + 1) := by
    rw [← hget, ← drop_eq_getElem_cons hi, take_append_drop]
  have hlinked := h.linked
  rw [hsplit] at hlinked
  rw [nextOf, if_pos ((h.live x).mpr hmem), hlinked.right.2.head?_eq, head?_drop]
  rfl

lemma Refines.nextItem (h : Refines t d entries) :
    ∃ t', t.nextItem = .ok (d.items[(d.cursor.map (· + 1)).getD 0]?, t') ∧
      Refines t' (d.goTo ((d.cursor.map (· + 1)).getD 0)).2 entries := by
  unfold Zlist.nextItem
  cases hc : d.cursor with
  | none =>
    have hcursor : t.cursor = none := by rw [h.cursor_eq, hc]; rfl
    rw [hcursor, h.holds.head_eq]
    exact h.goTo 0
  | some i =>
    have hi := h.cursor_lt i hc
    have hlength : i < (nodes entries).length := by rw [nodes, length_map]; exact hi
    obtain ⟨x, hx⟩ : ∃ x, nodeAt entries i = some x := ⟨_, getElem?_eq_getElem hlength⟩
    have hcursor : t.cursor = some x := by rw [h.cursor_eq, hc]; exact hx
    rw [hcursor]
    dsimp only
    rw [h.holds.next_nodeAt hx]
    exact h.goTo (i + 1)

lemma Holds.itemAt_eq (h : Holds t entries) {p : Option Nat} (hp : ∀ x ∈ p, x ∈ nodes entries) :
    t.itemAt p = .ok (p.map t.item) := by
  cases p with
  | none => rfl
  | some x =>
    rw [itemAt, itemOf, if_pos ((h.live x).mpr (hp x rfl))]
    rfl

lemma Holds.existsFrom_eq (h : Holds t (es ++ fs)) (test : I → Bool) {n : Nat} (hn : fs.length < n) :
    t.existsFrom test n (nodes fs).head? = .ok (fs.any fun e => test e.2) := by
  induction fs generalizing es n with
  | nil =>
    obtain ⟨n, rfl⟩ := Nat.exists_eq_add_of_lt hn
    rfl
  | cons f fs ih =>
    obtain ⟨n, rfl⟩ : ∃ k, n = k + 1 := ⟨n - 1, by omega⟩
    rw [nodes_cons, head?_cons, existsFrom, itemOf, if_pos h.used_mem, ok_bind, h.items f (by simp),
      any_cons]
    cases htest : test f.2 with
    | true => rfl
    | false =>
      rw [nextOf, if_pos h.used_mem, h.next_eq]
      rw [← singleton_append, ← append_assoc] at h
      exact ih h (Nat.lt_of_succ_lt_succ hn)

lemma Refines.added {t' : Zlist I} {entries' : List (Nat × I)} (h : Refines t d entries)
    (h' : Holds t' entries') (hcursor : t'.cursor = none) (hcompare : t'.compareFn = t.compareFn)
    (hautofree : t'.autofree = t.autofree) :
    Refines t' { d with items := entries'.map Prod.snd, cursor := none } entries' :=
  ⟨h', rfl, hcursor, fun _ hi => (Option.not_mem_none _ hi).elim, hcompare.trans h.compareFn_eq,
    hautofree.trans h.autofree_eq⟩

lemma Refines.copied_eq (h : Refines t d entries) (item copy : I) :
    t.copied (fun _ => copy) item = d.stored item copy := by
  rw [copied, Deque.stored, h.autofree_eq]

lemma findIdx?_split {e : Nat × I} {test : I → Bool} (hbefore : ∀ x ∈ es, test x.2 = false)
    (htest : test e.2 = true) :
    ((es ++ e :: fs).map Prod.snd).findIdx? test = some es.length := by
  have hnone : (es.map Prod.snd).findIdx? test = none := by
    rw [findIdx?_eq_none_iff, forall_mem_map]
    exact hbefore
  rw [map_append, map_cons, findIdx?_append, hnone, findIdx?_cons, if_pos htest,
    Option.map_some, length_map, Nat.zero_add]
  rfl

lemma Refines.cursor_removed {e : Nat × I} (h : Refines t d (es ++ e :: fs)) :
    (if t.cursor = some e.1 then (nodes es).getLast? else t.cursor) =
        (d.cursor.bind (Deque.shifted es.length)).bind (nodeAt (es ++ fs)) ∧
      ∀ i ∈ d.cursor.bind (Deque.shifted es.length), i < (es ++ fs).length := by
  have hlength : (nodes es).length = es.length := length_map ..
  have hnodup := h.holds.nodup
  rw [nodes_append, nodes_cons, nodup_append, nodup_cons] at hnodup
  have hcursor := h.cursor_eq
  cases hc : d.cursor with
  | none =>
    rw [hc] at hcursor
    rw [hcursor]
    exact ⟨if_neg (Option.some_ne_none _).symm, fun i hi => (Option.not_mem_none i hi).elim⟩
  | some c =>
    have hlt := h.cursor_lt c hc
    rw [hc, Option.bind_some, nodeAt, nodes_append, nodes_cons] at hcursor
    rw [length_append, length_cons] at hlt
    rw [Option.bind_some, Deque.shifted, length_append]
    rcases Nat.lt_trichotomy c es.length with hlt' | rfl | hgt
    · -- the cursor is before the item that goes
      have hget : t.cursor = (nodes es)[c]? := by rw [hcursor, getElem?_append_left (by omega)]
      have hne : t.cursor ≠ some e.1 := by
        intro he
        rw [hget] at he
        exact hnodup.2.2 _ (mem_of_getElem? he) _ (mem_cons_self ..) rfl
      rw [if_neg hne, if_pos hlt']
      refine ⟨?_, fun i hi => ?_⟩
      · rw [Option.bind_some, nodeAt, nodes_append, getElem?_append_left (by omega), hget]
      · cases hi
        omega
    · -- it is on it
      have hget : t.cursor = some e.1 := by
        rw [hcursor, getElem?_append_right (by omega), hlength, Nat.sub_self]
        rfl
      rw [if_pos hget, if_neg (lt_irrefl _), if_pos rfl]
      by_cases hzero : es.length = 0
      · rw [eq_nil_of_length_eq_zero hzero]
        exact ⟨rfl, fun i hi => (Option.not_mem_none i hi).elim⟩
      · rw [if_neg hzero]
        refine ⟨?_, fun i hi => ?_⟩
        · rw [Option.bind_some, nodeAt, nodes_append, getElem?_append_left (by omega),
            getLast?_eq_getElem?, hlength]
        · cases hi
          omega
    · -- it is behind it
      have hget : t.cursor = (nodes fs)[c - 1 - es.length]? := by
        rw [hcursor, getElem?_append_right (by omega), hlength,
          show c - es.length = c - 1 - es.length + 1 by omega, getElem?_cons_succ]
      have hne : t.cursor ≠ some e.1 := by
        intro he
        rw [hget] at he
        exact hnodup.2.1.1 (mem_of_getElem? he)
      rw [if_neg hne, if_neg (by omega), if_neg (by omega)]
      refine ⟨?_, fun i hi => ?_⟩
      · rw [Option.bind_some, nodeAt, nodes_append, getElem?_append_right (by omega), hlength, hget]
      · cases hi
        omega

lemma Refines.remove [DecidableEq I] (h : Refines t d entries) (item : I) :
    ∃ t' entries', t.remove item = .ok t' ∧ Refines t' (d.remove item) entries' := by
  unfold Deque.remove
  rw [← h.same_eq item, h.items_eq]
  rcases split_first entries (t.same item) with hnone | ⟨es, e, fs, rfl, hbefore, htest⟩
  · have hfind : (entries.map Prod.snd).findIdx? (t.same item) = none := by
      rw [findIdx?_eq_none_iff, forall_mem_map]
      exact hnone
    rw [hfind]
    exact ⟨t, entries, h.holds.remove_absent hnone, h⟩
  · obtain ⟨t', he, h', hsame, hcursor, -⟩ := h.holds.remove_found hbefore htest
    obtain ⟨hshift, hlt⟩ := h.cursor_removed
    rw [findIdx?_split hbefore htest]
    refine ⟨t', es ++ fs, he, h', ?_, hcursor.trans hshift, hlt, hsame.compareFn.trans h.compareFn_eq,
      hsame.autofree.trans h.autofree_eq⟩
    show ((es ++ e :: fs).map Prod.snd).eraseIdx es.length = (es ++ fs).map Prod.snd
    have hlength : (es.map Prod.snd).length = es.length := length_map ..
    rw [map_append, map_cons, eraseIdx_append_of_length_le hlength.le, hlength, Nat.sub_self,
      eraseIdx_zero, tail_cons, map_append]

lemma Refines.step [DecidableEq I] (h : Refines t d entries) {op : DequeOp I} (hv : t.DequeValid op) :
    ∃ t' entries', t.dequeStep op = .ok ((d.step op).1, t') ∧ Refines t' (d.step op).2 entries' := by
  cases op with
  | append node item copy =>
    obtain ⟨t', he, h'⟩ := h.holds.append hv (fun _ => copy) item
    obtain ⟨links, head, ht'⟩ := append_ok he
    have hadded := h.added h' (by rw [ht']) (by rw [ht']; rfl) (by rw [ht']; rfl)
    rw [h.copied_eq, map_append, ← h.items_eq] at hadded
    exact ⟨_, _, by rw [dequeStep, he]; rfl, hadded⟩
  | push node item copy =>
    obtain ⟨t', he, h'⟩ := h.holds.push hv (fun _ => copy) item
    obtain ⟨links, tail, ht'⟩ := push_ok he
    have hadded := h.added h' (by rw [ht']) (by rw [ht']; rfl) (by rw [ht']; rfl)
    rw [h.copied_eq, map_cons, ← h.items_eq] at hadded
    exact ⟨_, _, by rw [dequeStep, he]; rfl, hadded⟩
  | pop =>
    obtain ⟨t', he, h'⟩ := h.holds.pop
    obtain ⟨head, tail, used, size, rfl⟩ := pop_ok he
    have hadded := h.added h' rfl rfl rfl
    rw [map_tail, ← h.items_eq] at hadded
    refine ⟨_, _, ?_, hadded⟩
    rw [dequeStep, he, Deque.step, h.items_eq, head?_map]
    rfl
  | remove item =>
    obtain ⟨t', entries', he, h'⟩ := h.remove item
    exact ⟨t', entries', by rw [dequeStep, he]; rfl, h'⟩
  | first =>
    obtain ⟨t', he, h'⟩ := h.goTo 0
    exact ⟨t', entries, by rw [dequeStep, first, h.holds.head_eq, he]; rfl, h'⟩
  | next =>
    obtain ⟨t', he, h'⟩ := h.nextItem
    exact ⟨t', entries, by rw [dequeStep, he]; rfl, h'⟩
  | last =>
    obtain ⟨t', he, h'⟩ := h.goTo (d.items.length - 1)
    refine ⟨t', entries, ?_, h'⟩
    rw [dequeStep, last, h.holds.tail_eq_nodeAt, ← h.length_eq, he]
    rfl
  | head =>
    refine ⟨t, entries, ?_, h⟩
    rw [dequeStep, headItem, h.holds.itemAt_eq h.holds.head_mem, h.holds.head_eq,
      h.holds.map_item_nodeAt, Deque.step, h.items_eq, head?_eq_getElem?]
    rfl
  | tail =>
    refine ⟨t, entries, ?_, h⟩
    rw [dequeStep, tailItem, h.holds.itemAt_eq h.holds.tail_mem, h.holds.tail_eq_nodeAt,
      h.holds.map_item_nodeAt, Deque.step, h.items_eq, getLast?_eq_getElem?, length_map]
    rfl
  | item =>
    refine ⟨t, entries, ?_, h⟩
    rw [dequeStep, currentItem, h.holds.itemAt_eq h.holds.cursor_mem, h.cursor_eq, Deque.step, h.items_eq]
    cases d.cursor with
    | none => rfl
    | some i => exact congrArg (fun x => Except.ok (DequeAnswer.ptr x, t)) (h.holds.map_item_nodeAt i)
  | existsItem item =>
    refine ⟨t, entries, ?_, h⟩
    have hall : Holds t ([] ++ entries) := h.holds
    have hloop := hall.existsFrom_eq (t.same item) h.holds.lt_rounds
    rw [← h.holds.linked.head?_eq] at hloop
    rw [dequeStep, existsItem, hloop, Deque.step, h.items_eq, any_map, h.same_eq]
    rfl
  | purge =>
    obtain ⟨t', he, h', hsame, hcursor, -⟩ := h.holds.purge
    exact ⟨t', [], by rw [dequeStep, he]; rfl, h.added h' hcursor hsame.compareFn hsame.autofree⟩
  | size =>
    refine ⟨t, entries, ?_, h⟩
    rw [dequeStep, h.holds.size_eq, Deque.step, h.length_eq]
  | comparefn fn =>
    exact ⟨_, entries, rfl, { h.holds with }, h.items_eq, h.cursor_eq, h.cursor_lt, rfl, h.autofree_eq⟩
  | autofree =>
    exact ⟨_, entries, rfl, { h.holds with }, h.items_eq, h.cursor_eq, h.cursor_lt, h.compareFn_eq, rfl⟩

lemma Refines.next_of_remove_cursor [DecidableEq I] (h : Refines t d entries) {item : I} {i : Nat}
    (hc : d.cursor = some i) (hfind : d.items.findIdx? (d.same item) = some i) :
    ∃ t1 t2, t.remove item = .ok t1 ∧ t1.nextItem = .ok (d.items[i + 1]?, t2) := by
  obtain ⟨t1, entries1, hremove, h1⟩ := h.remove item
  obtain ⟨t2, hnext, -⟩ := h1.nextItem
  refine ⟨t1, t2, hremove, hnext.trans (congrArg (fun x => Except.ok (x, t2)) ?_)⟩
  have hremoved : d.remove item = { d with items := d.items.eraseIdx i, cursor := Deque.shifted i i } := by
    rw [Deque.remove, hfind]
    rw [hc]
    rfl
  -- the cursor is at the position before, or cleared if there is none
  have hposition : ((Deque.shifted i i).map (· + 1)).getD 0 = i := by
    unfold Deque.shifted
    rw [if_neg (lt_irrefl i), if_pos rfl]
    split
    · next hi => exact hi.symm
    · next hi => exact Nat.sub_add_cancel (Nat.one_le_iff_ne_zero.mpr hi)
  rw [hremoved]
  rw [hposition, getElem?_eraseIdx_of_ge le_rfl]

/-- After every valid call of a run: the answers are those of the sequence with a cursor, the chain
has as many nodes as the size says and ends at the tail, the cursor is on none or one of them, and
removing the item at the cursor makes the one after it the next. -/
theorem run_refines_deque [DecidableEq I] (links : Nat → Option Nat) (contents : Nat → I)
    (ops : List (DequeOp I)) (hvalid : StepsMeet dequeStep DequeValid (new links contents) ops) :
    ∀ pre, pre <+: ops → ∃ answers d t xs,
      runAbs Deque.step .empty pre = (answers, d) ∧
      run dequeStep (new links contents) pre = .ok (answers, t) ∧
      Chain.Linked t.next t.head xs ∧ xs.Nodup ∧ xs.length = t.size ∧ t.tail = xs.getLast? ∧
      (t.head = none ∧ t.tail = none ↔ t.size = 0) ∧ (∀ x ∈ t.cursor, x ∈ xs) ∧
      xs.map t.item = d.items ∧
      ∀ item i, d.cursor = some i → d.items.findIdx? (d.same item) = some i →
        ∃ t₁ t₂, t.remove item = .ok t₁ ∧ t₁.nextItem = .ok (d.items[i + 1]?, t₂) := by
  rintro pre ⟨post, rfl⟩
  obtain ⟨t, hrun, entries, h⟩ := run_refines Deque.step (R := fun t d => ∃ entries, Refines t d entries)
    (fun t d op ⟨entries, h⟩ hv => by
      obtain ⟨t', entries', he, h'⟩ := h.step hv
      exact ⟨t', he, entries', h'⟩) ⟨[], refines_new links contents⟩ hvalid.left
  have hlength : (nodes entries).length = t.size := by rw [nodes, length_map, h.holds.size_eq]
  refine ⟨_, _, t, nodes entries, rfl, hrun, h.holds.linked, h.holds.nodup, hlength, h.holds.tail_eq, ?_,
    h.holds.cursor_mem, ?_, fun item i hc hfind => h.next_of_remove_cursor hc hfind⟩
  · rw [h.holds.linked.head?_eq, h.holds.tail_eq, ← hlength, head?_eq_none_iff,
      getLast?_eq_none_iff, and_self, length_eq_zero_iff]
  · rw [h.items_eq, nodes, map_map]
    exact map_congr_left h.holds.items

/-- Three items; the one at the cursor goes, and one that compares the same. -/
def sampleOps : List (DequeOp Nat) :=
  [.append 1 10 0, .append 2 20 0, .push 3 5 0, .first, .next, .remove 10, .item, .next, .next, .next,
    .comparefn (some fun x y => (x : Int) % 10 - y % 10), .last, .existsItem 30, .remove 30, .item, .head,
    .tail, .size, .pop, .purge, .first]

instance (op : DequeOp I) : Decidable (t.DequeValid op) := by
  unfold DequeValid
  split <;> infer_instance

theorem run_refines_deque_sample : ∃ t, run dequeStep (new (fun _ => none) fun _ => 0) sampleOps =
    .ok ([.rc 0, .rc 0, .rc 0, .ptr (some 5), .ptr (some 10), .void, .ptr (some 5), .ptr (some 20),
      .ptr none, .ptr (some 5), .void, .ptr (some 20), .found true, .void, .ptr (some 5), .ptr (some 5),
      .ptr (some 5), .size 1, .ptr (some 5), .void, .ptr none], t) ∧ t.size = 0 := by
  have hvalid : StepsMeet dequeStep DequeValid (new (fun _ => none) fun _ => 0) sampleOps :=
    stepsMeet_of_checkSteps (by decide +kernel)
  obtain ⟨answers, d, t, xs, habs, hrun, -, -, hlength, -, -, -, hitems, -⟩ :=
    run_refines_deque (fun _ => none) (fun _ => 0) sampleOps hvalid sampleOps prefix_rfl
  obtain ⟨hanswers, hd⟩ := Prod.mk.inj habs
  refine ⟨t, hrun.trans (congrArg (fun r => Except.ok (r, t)) ?_), ?_⟩
  · rw [← hanswers]
    decide +kernel
  · have hnone : d.items = [] := (congrArg Deque.items hd).symm.trans (by decide +kernel)
    rw [hnone, map_eq_nil_iff] at hitems
    rw [← hlength, hitems]
    rfl

end Zlist

end Czmq
