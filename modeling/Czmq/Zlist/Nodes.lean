import Czmq.Base.Chain
import Czmq.Fault

/-! The list of `zlist.c`: a chain of nodes with a pointer to the last. `zmalloc` chooses the
address of a new node, and an access to a node that is not in use faults. -/

namespace Czmq

open Function

/-- `zlist_t` with its nodes, and the calls that freed items, latest first: `none` for `free` with
`autofree`, otherwise the item's own function. No node holds `NULL`. -/
structure Zlist (I : Type) where
  next : Nat → Option Nat
  item : Nat → I
  freeFn : Nat → Option Nat
  used : Nat → Bool
  head : Option Nat
  tail : Option Nat
  cursor : Option Nat
  size : Nat
  autofree : Bool
  compareFn : Option (I → I → Int)
  freed : List (Option Nat × I)

namespace Zlist

variable {I : Type}

def new (next : Nat → Option Nat) (item : Nat → I) : Zlist I where
  next := next
  item := item
  freeFn := fun _ => none
  used := fun _ => false
  head := none
  tail := none
  cursor := none
  size := 0
  autofree := false
  compareFn := none
  freed := []

def nextOf (t : Zlist I) (node : Nat) : Except Fault (Option Nat) :=
  if t.used node then .ok (t.next node) else .error .useAfterFree

def itemOf (t : Zlist I) (node : Nat) : Except Fault I :=
  if t.used node then .ok (t.item node) else .error .useAfterFree

def setNext (t : Zlist I) (node : Nat) (next : Option Nat) : Except Fault (Zlist I) :=
  if t.used node then .ok { t with next := update t.next node next }
  else .error .useAfterFree

def nodeNew (t : Zlist I) (node : Nat) (item : I) : Zlist I :=
  { t with
    used := update t.used node true
    next := update t.next node none
    freeFn := update t.freeFn node none
    item := update t.item node item }

def copied (strdup : I → I) (t : Zlist I) (item : I) : I := if t.autofree then strdup item else item

def linkAfter (t : Zlist I) (prev next : Option Nat) : Except Fault (Zlist I) :=
  match prev with
  | some prev => t.setNext prev next
  | none => .ok { t with head := next }

def append (strdup : I → I) (t : Zlist I) (node : Nat) : Option I → Except Fault (Int × Zlist I)
  | none => .ok (-1, t)
  | some item => do
    let t := t.nodeNew node (t.copied strdup item)
    let t ← t.linkAfter t.tail (some node)
    let t := { t with tail := some node }
    let t ← t.setNext node none
    pure (0, { t with size := t.size + 1, cursor := none })

def push (strdup : I → I) (t : Zlist I) (node : Nat) : Option I → Except Fault (Int × Zlist I)
  | none => .ok (-1, t)
  | some item => do
    let t := t.nodeNew node (t.copied strdup item)
    let t ← t.setNext node t.head
    pure (0,
      { t with
        head := some node
        tail := if t.tail.isNone then some node else t.tail
        size := t.size + 1
        cursor := none })

def free (t : Zlist I) (node : Nat) : Zlist I := { t with used := update t.used node false }

def pop (t : Zlist I) : Except Fault (Option I × Zlist I) :=
  match t.head with
  | none => .ok (none, { t with cursor := none })
  | some node => do
    let item ← t.itemOf node
    let next ← t.nextOf node
    let t :=
      { t with
        head := next
        tail := if t.tail = some node then none else t.tail }
    let t := t.free node
    pure (some item, { t with size := t.size - 1, cursor := none })

def dispose (t : Zlist I) (node : Nat) : Zlist I :=
  if t.autofree then { t with freed := (none, t.item node) :: t.freed }
  else
    match t.freeFn node with
    | some f => { t with freed := (some f, t.item node) :: t.freed }
    | none => t

def same [DecidableEq I] (t : Zlist I) (item x : I) : Bool :=
  match t.compareFn with
  | some compare => compare x item == 0
  | none => x == item

def search (t : Zlist I) (test : I → Bool) :
    Nat → Option Nat → Option Nat → Except Fault (Option Nat × Option Nat)
  | 0, _, _ => .error .endlessLoop
  | _ + 1, prev, none => .ok (prev, none)
  | n + 1, prev, some node => do
    let x ← t.itemOf node
    if test x then pure (prev, some node)
    else do
      let next ← t.nextOf node
      search t test n (some node) next

def remove [DecidableEq I] (t : Zlist I) (item : I) : Except Fault (Zlist I) := do
  let (prev, node) ← t.search (t.same item) (t.size + 1) none t.head
  match node with
  | none => pure t
  | some node => do
    let next ← t.nextOf node
    let t ← t.linkAfter prev next
    let next ← t.nextOf node
    let t :=
      { t with
        tail := if next.isNone then prev else t.tail
        cursor := if t.cursor = some node then prev else t.cursor }
    let t := t.dispose node
    let t := t.free node
    pure { t with size := t.size - 1 }

def purgeFrom : Nat → Zlist I → Option Nat → Except Fault (Zlist I)
  | 0, _, _ => .error .endlessLoop
  | _ + 1, t, none => .ok t
  | n + 1, t, some node => do
    let next ← t.nextOf node
    purgeFrom n ((t.dispose node).free node) next

def purge (t : Zlist I) : Except Fault (Zlist I) := do
  let t ← purgeFrom (t.size + 1) t t.head
  pure { t with head := none, tail := none, cursor := none, size := 0 }

def moveCursor (t : Zlist I) (node : Option Nat) : Except Fault (Option I × Zlist I) :=
  match node with
  | none => .ok (none, { t with cursor := none })
  | some x => do
    let item ← t.itemOf x
    pure (some item, { t with cursor := some x })

def first (t : Zlist I) : Except Fault (Option I × Zlist I) := t.moveCursor t.head

def nextItem (t : Zlist I) : Except Fault (Option I × Zlist I) :=
  match t.cursor with
  | none => t.moveCursor t.head
  | some x => do
    let next ← t.nextOf x
    t.moveCursor next

def last (t : Zlist I) : Except Fault (Option I × Zlist I) := t.moveCursor t.tail

def itemAt (t : Zlist I) : Option Nat → Except Fault (Option I)
  | none => .ok none
  | some x => do
    let item ← t.itemOf x
    pure (some item)

def headItem (t : Zlist I) : Except Fault (Option I) := t.itemAt t.head

def tailItem (t : Zlist I) : Except Fault (Option I) := t.itemAt t.tail

def currentItem (t : Zlist I) : Except Fault (Option I) := t.itemAt t.cursor

def existsFrom (t : Zlist I) (test : I → Bool) : Nat → Option Nat → Except Fault Bool
  | 0, _ => .error .endlessLoop
  | _ + 1, none => .ok false
  | n + 1, some node => do
    let x ← t.itemOf node
    if test x then pure true
    else do
      let next ← t.nextOf node
      existsFrom t test n next

def existsItem [DecidableEq I] (t : Zlist I) (item : I) : Except Fault Bool :=
  t.existsFrom (t.same item) (t.size + 1) t.head

def freefnFrom [DecidableEq I] (t : Zlist I) (item : I) (fn : Option Nat) :
    Nat → Option Nat → Except Fault (Option I × Zlist I)
  | 0, _ => .error .endlessLoop
  | _ + 1, none => .ok (none, t)
  | n + 1, some node => do
    let x ← t.itemOf node
    if x = item then pure (some item, { t with freeFn := update t.freeFn node fn })
    else do
      let next ← t.nextOf node
      freefnFrom t item fn n next

def freefn [DecidableEq I] (t : Zlist I) (item : I) (fn : Option Nat) (atTail : Bool) :
    Except Fault (Option I × Zlist I) :=
  t.freefnFrom item fn (t.size + 1) (if atTail then t.tail else t.head)

end Zlist

end Czmq
