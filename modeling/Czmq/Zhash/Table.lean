import Czmq.Zhashx.File

/-! The hash table of `zhash.c`. Items and keys are known by their addresses, values by their
contents. The addresses that the allocator chooses come with the calls; a call with one that is in
use stops. -/

namespace Czmq

open Bytes

namespace Zhash

def initialSize : Nat := 255
def loadFactor : Nat := 75
def growthFactor : Nat := 200

/-- `item_t` at `addr`, with the text of `key`. A free function is a number. -/
structure Item (V : Type) where
  addr : Nat
  value : Option V
  index : Nat
  key : Nat
  text : CString
  freeFn : Option Nat

structure Site where
  item : Nat
  key : Nat

end Zhash

/-- `zhash_t` without the comments, and the calls that freed values, latest first: `none` for `free`
with `autofree`, otherwise the item's own function. -/
structure Zhash (V : Type) where
  size : Nat
  limit : Nat
  items : List (List (Zhash.Item V))
  cachedIndex : Nat
  autofree : Bool
  cursorIndex : Nat
  cursorItem : Option Nat
  cursorKey : Option Nat
  modified : Int
  filename : Option CString
  freed : List (Option Nat × Option V)

namespace Zhash

variable {V : Type}

def new : Zhash V where
  size := 0
  limit := initialSize
  items := List.replicate initialSize []
  cachedIndex := 0
  autofree := false
  cursorIndex := 0
  cursorItem := none
  cursorKey := none
  modified := 0
  filename := none
  freed := []

def all (t : Zhash V) : List (Item V) := t.items.flatten

def charToUint (c : UInt8) : UInt32 := if c < 128 then c.toUInt32 else c.toUInt32 ||| 0xFFFFFF00

def sItemHash (key : CString) (limit : Nat) : Nat :=
  (key.1.foldl (fun keyHash c => 33 * keyHash ^^^ charToUint c) (0 : UInt32)).toNat % limit

def modifyItem (t : Zhash V) (a : Nat) (f : Item V → Item V) : Zhash V :=
  { t with items := t.items.map fun chain => chain.map fun it => if it.addr == a then f it else it }

def sItemLookup (t : Zhash V) (key : CString) : Option (Item V) × Zhash V :=
  ((t.items.getD (sItemHash key t.limit) []).find? fun it => decide (it.text = key),
    { t with cachedIndex := sItemHash key t.limit })

/-- The value stored for `value`. `strdup` reads through a `NULL`. -/
def copied (t : Zhash V) (value : Option V) : Except Fault (Option V) :=
  if t.autofree && value.isNone then .error (.outOfBounds 0) else .ok value

def link (t : Zhash V) (item : Item V) : Zhash V :=
  { t with items := Buckets.push item.index item t.items, size := t.size + 1 }

def keyUnused (t : Zhash V) (key : Nat) : Bool := t.all.all fun it => it.key != key

def unused (t : Zhash V) (site : Site) : Bool :=
  t.all.all (fun it => it.addr != site.item) && t.keyUnused site.key

def sItemInsert (t : Zhash V) (key : CString) (value : Option V) (site : Site) :
    Except Fault (Bool × Zhash V) :=
  match t.sItemLookup key with
  | (some _, t) => .ok (false, t)
  | (none, t) => do
    let value ← t.copied value
    if t.unused site then
      pure (true, t.link
        { addr := site.item, value := value, index := t.cachedIndex, key := site.key, text := key,
          freeFn := none })
    else .error .badArgument

/-- `self->size >= self->limit * LOAD_FACTOR / 100`, in `size_t`. -/
def overloaded (t : Zhash V) : Bool := t.limit * loadFactor % 2 ^ 64 / 100 ≤ t.size

def grow (t : Zhash V) : Except Fault (Zhash V) :=
  if t.overloaded then do
    let newLimit := t.limit * growthFactor % 2 ^ 64 / 100
    let move (newItems : List (List (Item V))) (curItem : Item V) :=
      Buckets.push (sItemHash curItem.text newLimit)
        { curItem with index := sItemHash curItem.text newLimit } newItems
    let newItems ← Loop.forUint t.limit .endlessLoop
      (fun newItems index => .ok ((t.items.getD index []).foldl move newItems))
      (List.replicate newLimit [])
    pure { t with items := newItems, limit := newLimit }
  else pure t

def insert (t : Zhash V) (key : CString) (value : Option V) (site : Site) :
    Except Fault (Int × Zhash V) := do
  let t ← t.grow
  let (inserted, t) ← t.sItemInsert key value site
  pure (if inserted then 0 else -1, t)

def disposeValue (t : Zhash V) (item : Item V) : List (Option Nat × Option V) :=
  match item.freeFn with
  | some f => [(some f, item.value)]
  | none => if t.autofree then [(none, item.value)] else []

def update (t : Zhash V) (key : CString) (value : Option V) (site : Site) :
    Except Fault (Zhash V) :=
  match t.sItemLookup key with
  | (some item, t) => do
    let t := { t with freed := t.disposeValue item ++ t.freed }
    let value ← t.copied value
    pure (t.modifyItem item.addr fun it => { it with value := value })
  | (none, t) => do
    let (_, t) ← t.insert key value site
    pure t

/-- The first half of `s_item_destroy`: take the item out of the bucket of its index field. -/
def unlink (t : Zhash V) (item : Item V) : Except Fault (Zhash V) :=
  if (t.items.getD item.index []).any (·.addr == item.addr) then
    .ok { t with
      items := t.items.modify item.index (·.eraseP (·.addr == item.addr))
      size := t.size - 1 }
  else .error .assertion

def sItemDestroy (t : Zhash V) (item : Item V) (hard : Bool) : Except Fault (Zhash V) := do
  let t ← t.unlink item
  if hard then
    pure { t with
      freed := t.disposeValue item ++ t.freed
      cursorItem := none
      cursorKey := none }
  else pure t

def delete (t : Zhash V) (key : CString) : Except Fault (Zhash V) :=
  match t.sItemLookup key with
  | (some item, t) => t.sItemDestroy item true
  | (none, t) => .ok t

def lookup (t : Zhash V) (key : CString) : Option V × Zhash V :=
  let (item, t) := t.sItemLookup key
  (item.bind (·.value), t)

/-- `zhash_rename`, with the address of the new key. -/
def rename (t : Zhash V) (oldKey newKey : CString) (key : Nat) : Except Fault (Int × Zhash V) :=
  let (oldItem, t) := t.sItemLookup oldKey
  let (newItem, t) := t.sItemLookup newKey
  match oldItem, newItem with
  | some oldItem, none => do
    let t ← t.sItemDestroy oldItem false
    if t.keyUnused key then
      pure (0, t.link { oldItem with key := key, text := newKey, index := t.cachedIndex })
    else .error .badArgument
  | _, _ => .ok (-1, t)

def freefn (t : Zhash V) (key : CString) (f : Option Nat) : Option V × Zhash V :=
  match t.sItemLookup key with
  | (some item, t) => (item.value, t.modifyItem item.addr fun it => { it with freeFn := f })
  | (none, t) => (none, t)

def keys (t : Zhash V) : Except Fault (List CString) :=
  Loop.forUint t.limit .endlessLoop
    (fun keys index => .ok (keys ++ (t.items.getD index []).map (·.text))) []

def firstOf (t : Zhash V) (index : Nat) : Option Nat := (t.items.getD index []).head?.map (·.addr)

def deref (t : Zhash V) (a : Nat) : Option (Item V × Option Nat) :=
  t.items.findSome? fun chain =>
    match chain.dropWhile (·.addr != a) with
    | [] => none
    | item :: next => some (item, next.head?.map (·.addr))

/-- One round of the loop of `zhash_next`, up to an item or the end of the table. -/
def skipBucket (t : Zhash V) : Zhash V ⊕ Zhash V :=
  match t.cursorItem with
  | some _ => .inr t
  | none =>
    if t.cursorIndex < t.limit - 1 then
      .inl { t with cursorIndex := t.cursorIndex + 1, cursorItem := t.firstOf (t.cursorIndex + 1) }
    else .inr t

def next (t : Zhash V) : Except Fault (Option V × Zhash V) := do
  let t ← Loop.untilDone .endlessLoop (fun t => .ok t.skipBucket) (t.limit + 1) t
  match t.cursorItem with
  | none => pure (none, t)
  | some a =>
    match t.deref a with
    | none => .error .useAfterFree
    | some (item, next) => pure (item.value, { t with cursorKey := some item.key, cursorItem := next })

def first (t : Zhash V) : Except Fault (Option V × Zhash V) :=
  next { t with cursorIndex := 0, cursorItem := t.firstOf 0 }

def cursor (t : Zhash V) : Option Nat := t.cursorKey

def loadLine (ofText : CString → V) (t : Zhash V) (line : CString × Site) : Except Fault (Zhash V) :=
  match Zhashx.binding line.1 with
  | none => .ok t
  | some (name, value) => t.update name (some (ofText value)) line.2

/-- `zhash_load`, if the file can be opened. Lines are read as by `zhashx_load`. -/
def loadFile (ofText : CString → V) (t : Zhash V) (filename : CString) (modified : Int)
    (file : Option (List UInt8)) (site : Nat → Site) : Except Fault (Int × Zhash V) :=
  let t := { t with autofree := true, filename := some filename, modified := modified }
  match file with
  | none => .ok (-1, t)
  | some file => do
    let lines := (Zhashx.buffers file).zipIdx.map fun p => (p.1, site p.2)
    let t ← lines.foldlM (loadLine ofText) t
    pure (0, t)

/-- Destroy the items of a chain, each with `next` read before. -/
def destroyChain (t : Zhash V) (chain : List (Item V)) : Except Fault (Zhash V) :=
  chain.foldlM (fun t curItem => t.sItemDestroy curItem true) t

/-- `zhash_refresh`. The time of the file is read again when it is loaded. -/
def refresh (ofText : CString → V) (t : Zhash V) (modifiedNow : Int) (stable : Bool) (modified : Int)
    (file : Option (List UInt8)) (site : Nat → Site) : Except Fault (Int × Zhash V) :=
  match t.filename with
  | none => .ok (0, t)
  | some filename =>
    if t.modified < modifiedNow ∧ stable = true then do
      let t ← Loop.forUint t.limit .endlessLoop
        (fun t index => t.destroyChain (t.items.getD index [])) t
      let (_, t) ← t.loadFile ofText filename modified file site
      pure (0, t)
    else .ok (0, t)

inductive Op (V : Type) where
  | insert (key : CString) (value : Option V) (site : Site)
  | update (key : CString) (value : Option V) (site : Site)
  | delete (key : CString)
  | lookup (key : CString)
  | rename (oldKey newKey : CString) (key : Nat)
  | freefn (key : CString) (fn : Option Nat)
  | size
  | keys
  | first
  | next
  | cursor
  | autofree
  | load (filename : CString) (modified : Int) (file : Option (List UInt8)) (site : Nat → Site)
  | refresh (modifiedNow : Int) (stable : Bool) (modified : Int) (file : Option (List UInt8))
    (site : Nat → Site)

inductive Answer (V : Type) where
  | rc (rc : Int)
  | value (value : Option V)
  | key (key : Option Nat)
  | keys (keys : List CString)
  | size (size : Nat)
  | void
  deriving DecidableEq

def step (ofText : CString → V) (t : Zhash V) : Op V → Except Fault (Answer V × Zhash V)
  | .insert key value site => do
    let (rc, t) ← t.insert key value site
    pure (.rc rc, t)
  | .update key value site => do
    let t ← t.update key value site
    pure (.void, t)
  | .delete key => do
    let t ← t.delete key
    pure (.void, t)
  | .lookup key => .ok (.value (t.lookup key).1, (t.lookup key).2)
  | .rename oldKey newKey key => do
    let (rc, t) ← t.rename oldKey newKey key
    pure (.rc rc, t)
  | .freefn key fn => .ok (.value (t.freefn key fn).1, (t.freefn key fn).2)
  | .size => .ok (.size t.size, t)
  | .keys => do
    let keys ← t.keys
    pure (.keys keys, t)
  | .first => do
    let (value, t) ← t.first
    pure (.value value, t)
  | .next => do
    let (value, t) ← t.next
    pure (.value value, t)
  | .cursor => .ok (.key t.cursor, t)
  | .autofree => .ok (.void, { t with autofree := true })
  | .load filename modified file site => do
    let (rc, t) ← t.loadFile ofText filename modified file site
    pure (.rc rc, t)
  | .refresh modifiedNow stable modified file site => do
    let (rc, t) ← t.refresh ofText modifiedNow stable modified file site
    pure (.rc rc, t)

end Zhash

end Czmq
