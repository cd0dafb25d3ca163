import Czmq.Base.Loop
import Czmq.Fault
import Mathlib.Logic.Function.Basic

/-! The list of `zlistx.c`: a ring of nodes through a head that holds no item. `zmalloc` may give
any address that is not in use. A node is in use while it has its tag; an access to any other
faults. -/

namespace Czmq

open Function

/-- The memory of the nodes. An item is a `void *`, `none` for `NULL`. -/
structure Heap (I : Type) where
  next : Nat → Nat
  prev : Nat → Nat
  item : Nat → Option I
  tag : Nat → Bool

structure ListCallbacks (I : Type) where
  duplicator : Option (Option I → Option I)
  destructor : Bool
  comparator : Option I → Option I → Int

/-- `zlistx_t` with its nodes, and the items destroyed, latest first. -/
structure Zlistx (I : Type) extends Heap I where
  head : Nat
  cursor : Nat
  size : Nat
  fn : ListCallbacks I
  destroyed : List (Option I)

namespace Zlistx

variable {I : Type}

def sNodeNew (t : Zlistx I) (node : Nat) (item : Option I) : Zlistx I :=
  { t with
    tag := update t.tag node true
    prev := update t.prev node node
    next := update t.next node node
    item := update t.item node item }

def sNodeRelink (t : Zlistx I) (node prev next : Nat) : Except Fault (Zlistx I) :=
  if t.tag node && t.tag prev && t.tag next then
    let temp := t.next node
    let t := { t with next := update t.next node (t.next prev) }
    let t := { t with next := update t.next prev temp }
    let temp := t.prev node
    let t := { t with prev := update t.prev node (t.prev next) }
    .ok { t with prev := update t.prev next temp }
  else .error .useAfterFree

/-- `zlistx_new` and the setters for the callbacks, on memory with any contents. -/
def new (memory : Heap I) (head : Nat) (fn : ListCallbacks I) : Zlistx I :=
  sNodeNew
    { memory with
      tag := fun _ => false
      head := head
      cursor := head
      size := 0
      fn := fn
      destroyed := [] } head none

def nextOf (t : Zlistx I) (node : Nat) : Except Fault Nat :=
  if t.tag node then .ok (t.next node) else .error .useAfterFree

def prevOf (t : Zlistx I) (node : Nat) : Except Fault Nat :=
  if t.tag node then .ok (t.prev node) else .error .useAfterFree

def itemOf (t : Zlistx I) (node : Nat) : Except Fault (Option I) :=
  if t.tag node then .ok (t.item node) else .error .useAfterFree

def duplicate (t : Zlistx I) (item : Option I) : Except Fault (Option I) :=
  match t.fn.duplicator with
  | none => .ok item
  | some duplicator =>
    match duplicator item with
    | none => .error .assertion
    | some item => .ok (some item)

def addStart (t : Zlistx I) (node : Nat) (item : Option I) : Except Fault (Nat × Zlistx I) :=
  if item.isNone then .error .assertion
  else do
    let item ← t.duplicate item
    let t := t.sNodeNew node item
    let t ← t.sNodeRelink node t.head (t.next t.head)
    pure (node, { t with cursor := t.head, size := t.size + 1 })

def addEnd (t : Zlistx I) (node : Nat) (item : Option I) : Except Fault (Nat × Zlistx I) :=
  if item.isNone then .error .assertion
  else do
    let item ← t.duplicate item
    let t := t.sNodeNew node item
    let t ← t.sNodeRelink node (t.prev t.head) t.head
    pure (node, { t with cursor := t.head, size := t.size + 1 })

def headItem (t : Zlistx I) : Except Fault (Option I) := do
  let node ← t.nextOf t.head
  t.itemOf node

def tailItem (t : Zlistx I) : Except Fault (Option I) := do
  let node ← t.prevOf t.head
  t.itemOf node

/-- Put the cursor on a node and return its item, or `NULL` for the head. -/
def moveCursor (t : Zlistx I) (node : Nat) : Except Fault (Option I × Zlistx I) := do
  let item ← if node = t.head then pure none else t.itemOf node
  pure (item, { t with cursor := node })

def first (t : Zlistx I) : Except Fault (Option I × Zlistx I) := do
  let node ← t.nextOf t.head
  t.moveCursor node

def nextItem (t : Zlistx I) : Except Fault (Option I × Zlistx I) := do
  let node ← t.nextOf t.cursor
  t.moveCursor node

def prevItem (t : Zlistx I) : Except Fault (Option I × Zlistx I) := do
  let node ← t.prevOf t.cursor
  t.moveCursor node

def last (t : Zlistx I) : Except Fault (Option I × Zlistx I) := do
  let node ← t.prevOf t.head
  t.moveCursor node

/-- Follow `link` to the first node whose item passes the test, or to the head: the loops of
`zlistx_find` and `zlistx_reorder`. -/
def seek (t : Zlistx I) (link : Nat → Nat) (test : Option I → Bool) : Nat → Nat → Except Fault Nat
  | 0, _ => .error .endlessLoop
  | n + 1, node =>
    if node = t.head then .ok node
    else do
      let item ← t.itemOf node
      if test item then pure node else seek t link test n (link node)

def find (t : Zlistx I) (item : Option I) : Except Fault (Option Nat × Zlistx I) :=
  if item.isNone then .error .assertion
  else do
    let node ← t.seek t.next (fun x => t.fn.comparator x item == 0) (t.size + 1) (t.next t.head)
    if node = t.head then pure (none, t) else pure (some node, { t with cursor := node })

def detach (t : Zlistx I) (handle : Option Nat) : Except Fault (Option I × Zlistx I) :=
  let node := handle.or (if t.next t.head = t.head then none else some (t.next t.head))
  match node with
  | some node => do
    let cursor ← (if t.cursor = node then t.prevOf t.cursor else .ok t.cursor)
    let t := { t with cursor := cursor }
    if t.tag node then do
      let t ← t.sNodeRelink node (t.prev node) (t.next node)
      pure (t.item node, { t with tag := update t.tag node false, size := t.size - 1 })
    else .error .assertion
  | none => if t.size = 0 then .ok (none, t) else .error .assertion

def delete (t : Zlistx I) (handle : Option Nat) : Except Fault (Int × Zlistx I) := do
  let (item, t) ← t.detach handle
  if item.isSome then
    pure (0, if t.fn.destructor then { t with destroyed := item :: t.destroyed } else t)
  else pure (-1, t)

def moveStart (t : Zlistx I) (node : Nat) : Except Fault (Zlistx I) :=
  if t.tag node then
    let next := t.next t.head
    if node ≠ next then do
      let t ← t.sNodeRelink node (t.prev node) (t.next node)
      t.sNodeRelink node (t.prev next) next
    else pure t
  else .error .assertion

def moveEnd (t : Zlistx I) (node : Nat) : Except Fault (Zlistx I) :=
  if t.tag node then
    let prev := t.prev t.head
    if node ≠ prev then do
      let t ← t.sNodeRelink node (t.prev node) (t.next node)
      t.sNodeRelink node prev (t.next prev)
    else pure t
  else .error .assertion

def purge (t : Zlistx I) : Except Fault (Zlistx I) :=
  Loop.untilDone .endlessLoop
    (fun t : Zlistx I => if 0 < t.size then do
        let (_, t) ← t.delete none
        pure (.inl t)
      else pure (.inr t)) (t.size + 1) t

def reorder (t : Zlistx I) (node : Nat) (lowValue : Bool) : Except Fault (Zlistx I) :=
  if t.tag node then do
    let t ← t.sNodeRelink node (t.prev node) (t.next node)
    if lowValue then do
      let next ← t.seek t.next (fun x => t.fn.comparator (t.item node) x ≤ 0) (t.size + 1)
        (t.next t.head)
      t.sNodeRelink node (t.prev next) next
    else do
      let prev ← t.seek t.prev (fun x => t.fn.comparator x (t.item node) ≤ 0) (t.size + 1)
        (t.prev t.head)
      t.sNodeRelink node prev (t.next prev)
  else .error .assertion

def insert (t : Zlistx I) (node : Nat) (item : Option I) (lowValue : Bool) :
    Except Fault (Nat × Zlistx I) := do
  let item ← t.duplicate item
  let t := t.sNodeNew node item
  let t ← t.reorder node lowValue
  pure (node, { t with cursor := t.head, size := t.size + 1 })

end Zlistx

end Czmq
