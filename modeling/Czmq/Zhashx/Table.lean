import Czmq.Base.Buckets
import Czmq.Base.Loop
import Czmq.Fault
import Czmq.Zhashx.Primes

/-! The hash table of `zhashx.c`. An item is known by its address, keys by their contents, and a
`void *` value is an `Option`. Allocation never fails, as `zmalloc` aborts when it does. -/

namespace Czmq

def initialPrime : Nat := 0
def growthFactor : Nat := 5
def loadFactor : Nat := 75
def initialChain : Nat := 1
def chainGrows : Nat := 1

/-- `item_t`, with its address. A free function is a number. -/
structure Item (K V : Type) where
  addr : Nat
  value : Option V
  index : Nat
  key : K
  freeFn : Option Nat
  deriving DecidableEq

/-- The callbacks of a table. A comparator answers 0 for equal keys; a destructor is there or not.
-/
structure Callbacks (K V : Type) where
  duplicator : Option (Option V → Option V)
  destructor : Bool
  keyDuplicator : Option (K → K)
  keyDestructor : Bool
  keyComparator : K → K → Int
  hasher : K → UInt64

inductive Call (K V : Type) where
  | destructor (value : Option V)
  | freeFn (fn : Nat) (value : Option V)
  | keyDestructor (key : K)
  deriving DecidableEq

/-- `zhashx_t` without the fields for files. `fresh` is the next address of `zmalloc`, and `calls`
the destructor calls, latest first. -/
structure Zhashx (K V : Type) where
  size : Nat
  primeIndex : Nat
  chainLimit : Nat
  items : List (List (Item K V))
  cachedIndex : Nat
  cursorIndex : Nat
  cursorItem : Option Nat
  cursorKey : Option K
  fn : Callbacks K V
  fresh : Nat
  calls : List (Call K V)

namespace Callbacks

variable {K V : Type} (fn : Callbacks K V)

def sameKey (item : Item K V) (key : K) : Bool := fn.keyComparator item.key key == 0

def dupKey (key : K) : K :=
  match fn.keyDuplicator with
  | some dup => dup key
  | none => key

def dupValue (value : Option V) : Option V :=
  match fn.duplicator with
  | some dup => dup value
  | none => value

def disposeValue (item : Item K V) : List (Call K V) :=
  if fn.destructor then [.destructor item.value]
  else match item.freeFn with
    | some f => [.freeFn f item.value]
    | none => []

def disposeKey (item : Item K V) : List (Call K V) :=
  if fn.keyDestructor then [.keyDestructor item.key] else []

end Callbacks

namespace Zhashx

variable {K V : Type}

def new (fn : Callbacks K V) : Zhashx K V where
  size := 0
  primeIndex := initialPrime
  chainLimit := initialChain
  items := List.replicate (primes.getD initialPrime 0) []
  cachedIndex := 0
  cursorIndex := 0
  cursorItem := none
  cursorKey := none
  fn := fn
  fresh := 1
  calls := []

/-- `primes [self->prime_index]`, an index that `sZhashxRehash` has read before. -/
def limit (t : Zhashx K V) : Nat := primes.getD t.primeIndex 0

def bucket (t : Zhashx K V) (key : K) : Nat := (t.fn.hasher key).toNat % t.limit

def itemAt (t : Zhashx K V) (a : Nat) : Option (Item K V) :=
  t.items.flatten.find? (·.addr == a)

def modifyItem (t : Zhashx K V) (a : Nat) (f : Item K V → Item K V) : Zhashx K V :=
  { t with items := t.items.map fun chain => chain.map fun it => if it.addr == a then f it else it }

/-- `s_zhashx_rehash`. The assertion compares the index with a byte count, so an index past the
table gets through to `primes [new_prime_index]`. -/
def sZhashxRehash (t : Zhashx K V) (newPrimeIndex : Nat) : Except Fault (Zhashx K V) :=
  if newPrimeIndex < sizeofPrimes then
    match primes[newPrimeIndex]? with
    | none => .error (.outOfBounds newPrimeIndex)
    | some newLimit =>
      let place (it : Item K V) : Nat := (t.fn.hasher it.key).toNat % newLimit
      let move (newItems : List (List (Item K V))) (curItem : Item K V) :=
        Buckets.push (place curItem) { curItem with index := place curItem } newItems
      .ok { t with
        items := t.items.foldl (fun newItems chain => chain.foldl move newItems)
          (List.replicate newLimit [])
        primeIndex := newPrimeIndex }
  else .error .assertion

/-- Walk a chain for a key; `len` is the `uint` that counts items. -/
def walk (fn : Callbacks K V) (key : K) : List (Item K V) → UInt32 → Option (Item K V) × UInt32
  | [], len => (none, len)
  | item :: next, len =>
    if fn.sameKey item key then (some item, len) else walk fn key next (len + 1)

/-- `s_item_lookup`: the address of the item, in the table as it is then. -/
def sItemLookup (t : Zhashx K V) (key : K) : Except Fault (Option Nat × Zhashx K V) :=
  let t := { t with cachedIndex := t.bucket key }
  let (item, len) := walk t.fn key (t.items.getD t.cachedIndex []) 0
  if t.chainLimit < len.toNat then do
    let t ← t.sZhashxRehash (t.primeIndex + growthFactor)
    pure (item.map (·.addr),
      { t with cachedIndex := t.bucket key, chainLimit := t.chainLimit + chainGrows })
  else pure (item.map (·.addr), t)

def link (t : Zhashx K V) (item : Item K V) : Zhashx K V :=
  { t with
    items := Buckets.push item.index item t.items
    size := t.size + 1
    cursorItem := some item.addr
    cursorKey := some item.key }

/-- `s_item_insert`: the address of the new item, `none` if the key is taken. -/
def sItemInsert (t : Zhashx K V) (key : K) (value : Option V) :
    Except Fault (Option Nat × Zhashx K V) := do
  let (item, t) ← t.sItemLookup key
  match item with
  | none =>
    let item : Item K V :=
      { addr := t.fresh, value := t.fn.dupValue value, index := t.cachedIndex,
        key := t.fn.dupKey key, freeFn := none }
    pure (some item.addr, { t.link item with fresh := t.fresh + 1 })
  | some _ => pure (none, t)

/-- `self->size >= limit * LOAD_FACTOR / 100`, in `size_t`. -/
def overloaded (t : Zhashx K V) : Bool := t.limit * loadFactor % 2 ^ 64 / 100 ≤ t.size

def growIfOverloaded (t : Zhashx K V) : Except Fault (Zhashx K V) :=
  if t.overloaded then do
    let t ← t.sZhashxRehash (t.primeIndex + growthFactor)
    pure { t with chainLimit := t.chainLimit + chainGrows }
  else pure t

def insert (t : Zhashx K V) (key : K) (value : Option V) : Except Fault (Int × Zhashx K V) := do
  let t ← t.growIfOverloaded
  let (item, t) ← t.sItemInsert key value
  pure (if item.isSome then 0 else -1, t)

def overwrite (t : Zhashx K V) (a : Nat) (value : Option V) : Zhashx K V :=
  { t.modifyItem a (fun it => { it with value := t.fn.dupValue value }) with
    calls := (t.itemAt a).elim [] t.fn.disposeValue ++ t.calls }

def update (t : Zhashx K V) (key : K) (value : Option V) : Except Fault (Zhashx K V) := do
  let (item, t) ← t.sItemLookup key
  match item with
  | some a => pure (t.overwrite a value)
  | none => do
    let (_, t) ← t.insert key value
    pure t

/-- `s_item_destroy`: unlink the item from the bucket of its index field, and dispose of it when
`hard`. -/
def sItemDestroy (t : Zhashx K V) (a : Nat) (hard : Bool) :
    Except Fault (Item K V × Zhashx K V) :=
  match t.itemAt a with
  | none => .error .useAfterFree
  | some item =>
    if (t.items.getD item.index []).any (·.addr == a) then
      let t := { t with
        items := t.items.modify item.index (·.eraseP (·.addr == a))
        size := t.size - 1 }
      if hard then
        .ok (item, { t with
          cursorItem := none
          cursorKey := none
          calls := t.fn.disposeKey item ++ t.fn.disposeValue item ++ t.calls })
      else .ok (item, t)
    else .error .assertion

def delete (t : Zhashx K V) (key : K) : Except Fault (Zhashx K V) := do
  let (item, t) ← t.sItemLookup key
  match item with
  | some a => do
    let (_, t) ← t.sItemDestroy a true
    pure t
  | none => pure t

/-- Destroy the items of a chain, each with `next` read before. -/
def destroyChain : List (Item K V) → Zhashx K V → Except Fault (Zhashx K V)
  | [], t => pure t
  | curItem :: next, t => do
    let (_, t) ← t.sItemDestroy curItem.addr true
    destroyChain next t

/-- The body of the loop in `s_purge`: destroy the items of a bucket, then clear it. -/
def purgeBucket (t : Zhashx K V) (index : Nat) : Except Fault (Zhashx K V) := do
  let t ← destroyChain (t.items.getD index []) t
  pure { t with items := t.items.set index [] }

def sPurge (t : Zhashx K V) : Except Fault (Zhashx K V) :=
  Loop.forUint t.limit .endlessLoop purgeBucket t

def purge (t : Zhashx K V) : Except Fault (Zhashx K V) := do
  let t ← t.sPurge
  if initialPrime < t.primeIndex then
    pure { t with
      primeIndex := initialPrime
      chainLimit := initialChain
      items := List.replicate (primes.getD initialPrime 0) [] }
  else pure t

def lookup (t : Zhashx K V) (key : K) : Except Fault (Option V × Zhashx K V) := do
  let (item, t) ← t.sItemLookup key
  match item.bind t.itemAt with
  | some it => pure (it.value, { t with cursorItem := some it.addr, cursorKey := some it.key })
  | none => pure (none, t)

def rename (t : Zhashx K V) (oldKey newKey : K) : Except Fault (Int × Zhashx K V) := do
  let (oldItem, t) ← t.sItemLookup oldKey
  let (newItem, t) ← t.sItemLookup newKey
  match oldItem, newItem with
  | some a, none => do
    let (item, t) ← t.sItemDestroy a false
    let t := { t with calls := t.fn.disposeKey item ++ t.calls }
    pure (0, t.link { item with key := t.fn.dupKey newKey, index := t.cachedIndex })
  | _, _ => pure (-1, t)

def freefn (t : Zhashx K V) (key : K) (f : Option Nat) : Except Fault (Option V × Zhashx K V) := do
  let (item, t) ← t.sItemLookup key
  match item with
  | some a =>
    pure ((t.itemAt a).bind (·.value), t.modifyItem a (fun it => { it with freeFn := f }))
  | none => pure (none, t)

def firstOf (t : Zhashx K V) (index : Nat) : Option Nat :=
  (t.items.getD index []).head?.map (·.addr)

def nextOf (t : Zhashx K V) (a : Nat) : Option (Option Nat) :=
  t.items.findSome? fun chain =>
    match chain.dropWhile (·.addr != a) with
    | [] => none
    | _ :: next => some (next.head?.map (·.addr))

/-- A round of the loop of `zhashx_next` over empty buckets; the flag is for its `NULL`. -/
def skipBucket (s : Zhashx K V × Bool) : Zhashx K V × Bool :=
  let (t, _) := s
  if t.cursorIndex < t.limit - 1 then
    ({ t with cursorIndex := t.cursorIndex + 1, cursorItem := t.firstOf (t.cursorIndex + 1) }, false)
  else (t, true)

def next (t : Zhashx K V) : Except Fault (Option V × Zhashx K V) :=
  match Loop.whileLoop (fun s => s.1.cursorItem.isNone && !s.2) skipBucket (t.limit + 1)
      (t, false) with
  | none => .error .endlessLoop
  | some (t, true) => .ok (none, t)
  | some (t, false) =>
    match t.cursorItem with
    | none => .error .assertion
    | some a =>
      match t.itemAt a, t.nextOf a with
      | some item, some next =>
        .ok (item.value, { t with cursorKey := some item.key, cursorItem := next })
      | _, _ => .error .useAfterFree

def first (t : Zhashx K V) : Except Fault (Option V × Zhashx K V) :=
  next { t with cursorIndex := 0, cursorItem := t.firstOf 0 }

def cursor (t : Zhashx K V) : Option K := t.cursorKey

end Zhashx

end Czmq
