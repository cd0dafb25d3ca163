import Czmq.Base.Machine
import Czmq.Zhashx.Shape

/-! Sequences of operations on a table. `Fits` says that no growth step asks for an index past the
primes table; an operation reads out of bounds exactly when it does not fit. -/

namespace Czmq

variable {K V : Type}

inductive MapOp (K V : Type) where
  | insert (key : K) (value : Option V)
  | update (key : K) (value : Option V)
  | delete (key : K)
  | lookup (key : K)
  | rename (oldKey newKey : K)
  | freefn (key : K) (f : Option Nat)
  | purge

inductive Result (V : Type) where
  | void
  | rc (n : Int)
  | ptr (value : Option V)
  deriving DecidableEq

/-- The finite map, the iterator and the setters. The other functions read the table, or are loops
over these. -/
inductive TableOp (K V : Type) where
  | map (op : MapOp K V)
  | first
  | next
  | setDestructor (destructor : Bool)
  | setDuplicator (duplicator : Option (Option V → Option V))
  | setKeyDestructor (destructor : Bool)
  | setKeyDuplicator (duplicator : Option (K → K))
  | setKeyComparator (comparator : K → K → Int)
  | setKeyHasher (hasher : K → UInt64)

namespace Zhashx

def mapStep (t : Zhashx K V) : MapOp K V → Except Fault (Result V × Zhashx K V)
  | .insert key value => do
    let (rc, t) ← t.insert key value
    pure (.rc rc, t)
  | .update key value => do
    let t ← t.update key value
    pure (.void, t)
  | .delete key => do
    let t ← t.delete key
    pure (.void, t)
  | .lookup key => do
    let (v, t) ← t.lookup key
    pure (.ptr v, t)
  | .rename oldKey newKey => do
    let (rc, t) ← t.rename oldKey newKey
    pure (.rc rc, t)
  | .freefn key f => do
    let (v, t) ← t.freefn key f
    pure (.ptr v, t)
  | .purge => do
    let t ← t.purge
    pure (.void, t)

def setCallbacks (t : Zhashx K V) (f : Callbacks K V → Callbacks K V) :
    Except Fault (Result V × Zhashx K V) := .ok (.void, { t with fn := f t.fn })

def step (t : Zhashx K V) : TableOp K V → Except Fault (Result V × Zhashx K V)
  | .map op => t.mapStep op
  | .first => do
    let (v, t) ← t.first
    pure (.ptr v, t)
  | .next => do
    let (v, t) ← t.next
    pure (.ptr v, t)
  | .setDestructor d => t.setCallbacks fun fn => { fn with destructor := d }
  | .setDuplicator d => t.setCallbacks fun fn => { fn with duplicator := d }
  | .setKeyDestructor d => t.setCallbacks fun fn => { fn with keyDestructor := d }
  | .setKeyDuplicator d => t.setCallbacks fun fn => { fn with keyDuplicator := d }
  | .setKeyComparator c => t.setCallbacks fun fn => { fn with keyComparator := c }
  | .setKeyHasher h => t.setCallbacks fun fn => { fn with hasher := h }

def InsertFits (t : Zhashx K V) (key : K) : Prop := t.LoadFits ∧ t.loaded.LookupFits key

/-- Every growth step of the operation stays inside the primes table. -/
def MapFits (t : Zhashx K V) : MapOp K V → Prop
  | .insert key _ => t.InsertFits key
  | .update key _ => t.LookupFits key ∧ (t.find key = none → (t.looked key).InsertFits key)
  | .delete key => t.LookupFits key
  | .lookup key => t.LookupFits key
  | .rename oldKey newKey => t.LookupFits oldKey ∧ (t.looked oldKey).LookupFits newKey
  | .freefn key _ => t.LookupFits key
  | .purge => True

def Fits (t : Zhashx K V) : TableOp K V → Prop
  | .map op => t.MapFits op
  | _ => True

/-! ## The operations in closed form -/

def added (t : Zhashx K V) (key : K) (value : Option V) : Zhashx K V :=
  { t.link { addr := t.fresh, value := t.fn.dupValue value, index := t.cachedIndex,
             key := t.fn.dupKey key, freeFn := none } with fresh := t.fresh + 1 }

variable {t : Zhashx K V} {key : K}

lemma insert_of_fits (value : Option V) (hfit : t.InsertFits key) :
    t.insert key value = .ok (match t.loaded.find key with
      | none => (0, (t.loaded.looked key).added key value)
      | some _ => (-1, t.loaded.looked key)) := by
  rw [insert, growIfOverloaded_of_fits hfit.1]
  change (t.loaded.sItemInsert key value >>= _) = _
  rw [sItemInsert, sItemLookup_of_fits hfit.2]
  cases t.loaded.find key <;> rfl

lemma Shape.insert_of_not_fits (h : Shape t) (value : Option V)
    (hfit : ¬ t.InsertFits key) : ∃ i, t.insert key value = .error (.outOfBounds i) := by
  rw [insert]
  by_cases hload : t.LoadFits
  · rw [growIfOverloaded_of_fits hload]
    have hlook : ¬ t.loaded.LookupFits key := fun hl => hfit ⟨hload, hl⟩
    refine ⟨t.loaded.primeIndex + growthFactor, ?_⟩
    change (t.loaded.sItemInsert key value >>= _) = _
    rw [sItemInsert, (shape_loaded h hload).sItemLookup_of_not_fits hlook]
    rfl
  · obtain ⟨hload, hroom⟩ := Classical.not_imp.mp hload
    rw [growIfOverloaded, if_pos hload,
      sZhashxRehash_of_ge t (Nat.le_of_not_lt hroom) h.growth_lt_sizeof]
    exact ⟨_, rfl⟩

variable {it : Item K V}

lemma find_mem_all (h : t.find key = some it) :
    it ∈ t.all := Buckets.mem_flatten_of_mem_getD (List.mem_of_find?_eq_some h)

lemma exists_mem_looked (hfit : t.LookupFits key)
    (hit : it ∈ t.all) : ∃ it' ∈ (t.looked key).all, it'.unplaced = it.unplaced :=
  exists_mem_all_of_mem_entries
    ((entries_looked_perm hfit).mem_iff.mpr (mem_entries_of_mem_all hit))

variable {it' : Item K V}

lemma unplaced_addr_eq (h : it'.unplaced = it.unplaced) :
    it'.addr = it.addr := by rw [← it'.unplaced_addr, h, it.unplaced_addr]

lemma unplaced_key_eq (h : it'.unplaced = it.unplaced) :
    it'.key = it.key := by rw [← it'.unplaced_key, h, it.unplaced_key]

lemma unplaced_value_eq (h : it'.unplaced = it.unplaced) :
    it'.value = it.value := by rw [← it'.unplaced_value, h, it.unplaced_value]

lemma update_of_find_some (value : Option V)
    (hfit : t.LookupFits key) (hfind : t.find key = some it) :
    t.update key value = .ok ((t.looked key).overwrite it.addr value) := by
  rw [update, sItemLookup_of_fits hfit, hfind]
  rfl

lemma update_of_find_none (value : Option V)
    (hfit : t.LookupFits key) (hfind : t.find key = none) :
    t.update key value = ((t.looked key).insert key value).map (·.2) := by
  rw [update, sItemLookup_of_fits hfit, hfind]
  change ((t.looked key).insert key value >>= _) = _
  cases (t.looked key).insert key value <;> rfl

lemma delete_of_find_none (hfit : t.LookupFits key)
    (hfind : t.find key = none) : t.delete key = .ok (t.looked key) := by
  rw [delete, sItemLookup_of_fits hfit, hfind]
  rfl

lemma delete_of_find_some (h : Shape t) (hfit : t.LookupFits key)
    (hfind : t.find key = some it) (hit' : it' ∈ (t.looked key).all)
    (he : it'.unplaced = it.unplaced) : t.delete key = .ok ((t.looked key).disposed it') := by
  rw [delete, sItemLookup_of_fits hfit, hfind]
  change ((t.looked key).sItemDestroy it.addr true >>= _) = _
  rw [← unplaced_addr_eq he, (shape_looked h hfit).sItemDestroy_of_mem hit']
  rfl

lemma lookup_of_find_none (hfit : t.LookupFits key)
    (hfind : t.find key = none) : t.lookup key = .ok (none, t.looked key) := by
  rw [lookup, sItemLookup_of_fits hfit, hfind]
  rfl

lemma lookup_of_find_some (h : Shape t) (hfit : t.LookupFits key)
    (hfind : t.find key = some it) (hit' : it' ∈ (t.looked key).all)
    (he : it'.unplaced = it.unplaced) :
    t.lookup key = .ok (it'.value,
      { t.looked key with cursorItem := some it'.addr, cursorKey := some it'.key }) := by
  have hat := (shape_looked h hfit).itemAt_eq_some.mpr ⟨hit', unplaced_addr_eq he⟩
  rw [lookup, sItemLookup_of_fits hfit, hfind]
  simp only [bind, Except.bind, Option.map_some, Option.bind_some, hat]
  rfl

lemma freefn_of_find_none (f : Option Nat) (hfit : t.LookupFits key) (hfind : t.find key = none) :
    t.freefn key f = .ok (none, t.looked key) := by
  rw [freefn, sItemLookup_of_fits hfit, hfind]
  rfl

lemma freefn_of_find_some (h : Shape t) (f : Option Nat)
    (hfit : t.LookupFits key) (hfind : t.find key = some it)
    (hit' : it' ∈ (t.looked key).all) (he : it'.unplaced = it.unplaced) :
    t.freefn key f = .ok (it'.value,
      (t.looked key).modifyItem it.addr (fun x => { x with freeFn := f })) := by
  have hat := (shape_looked h hfit).itemAt_eq_some.mpr ⟨hit', unplaced_addr_eq he⟩
  rw [freefn, sItemLookup_of_fits hfit, hfind]
  simp only [bind, Except.bind, Option.map_some, hat]
  rfl

def renamed (t : Zhashx K V) (it : Item K V) (newKey : K) : Zhashx K V :=
  { t.unlinked it with calls := t.fn.disposeKey it ++ t.calls }.link
    { it with key := t.fn.dupKey newKey, index := t.cachedIndex }

lemma rename_of_find_some (h : Shape t) {oldKey newKey : K}
    (hold : t.LookupFits oldKey) (hnew : (t.looked oldKey).LookupFits newKey)
    (hfind : t.find oldKey = some it)
    (hfree : (t.looked oldKey).find newKey = none)
    (hit' : it' ∈ ((t.looked oldKey).looked newKey).all) (he : it'.unplaced = it.unplaced) :
    t.rename oldKey newKey = .ok (0, ((t.looked oldKey).looked newKey).renamed it' newKey) := by
  have hshape := shape_looked (shape_looked h hold) hnew
  rw [rename, sItemLookup_of_fits hold]
  change ((t.looked oldKey).sItemLookup newKey >>= _) = _
  rw [sItemLookup_of_fits hnew, hfind, hfree]
  change (((t.looked oldKey).looked newKey).sItemDestroy it.addr false >>= _) = _
  rw [← unplaced_addr_eq he, hshape.sItemDestroy_of_mem hit']
  rfl

lemma rename_of_not {oldKey newKey : K} (hold : t.LookupFits oldKey)
    (hnew : (t.looked oldKey).LookupFits newKey)
    (h : t.find oldKey = none ∨ ((t.looked oldKey).find newKey).isSome) :
    t.rename oldKey newKey = .ok (-1, (t.looked oldKey).looked newKey) := by
  rw [rename, sItemLookup_of_fits hold]
  change ((t.looked oldKey).sItemLookup newKey >>= _) = _
  rw [sItemLookup_of_fits hnew]
  rcases h with h | h
  · rw [h]
    rfl
  · obtain ⟨x, hx⟩ := Option.isSome_iff_exists.mp h
    rw [hx]
    cases t.find oldKey <;> rfl

/-! ## The operations keep the shape, and bounds on the items -/

lemma shape_overwrite (h : Shape t) (a : Nat) (value : Option V) :
    Shape (t.overwrite a value) := by
  have hmod : Shape (t.modifyItem a fun it => { it with value := t.fn.dupValue value }) :=
    shape_modifyItem h a (fun _ => rfl) fun _ => rfl
  exact hmod.congr rfl rfl rfl rfl

lemma shape_added (h : Shape t) (key : K) (value : Option V)
    (hindex : t.cachedIndex < t.items.length) : Shape (t.added key value) := by
  refine shape_link h _ hindex ?_ (Nat.lt_succ_self _) (Nat.le_succ _)
  intro hmem
  obtain ⟨it, hit, he⟩ := List.mem_map.mp hmem
  change it.addr = t.fresh at he
  exact absurd (h.addr_lt it hit) (by omega)

lemma shape_renamed (h : Shape t) (hit : it ∈ t.all)
    (newKey : K) (hindex : t.cachedIndex < t.items.length) : Shape (t.renamed it newKey) := by
  have hun : Shape { t.unlinked it with calls := t.fn.disposeKey it ++ t.calls } :=
    (shape_unlinked h hit).congr rfl rfl rfl rfl
  have hnodup := ((all_unlinked_perm h hit).map (·.addr)).nodup_iff.mpr h.addr_nodup
  have hlink := shape_link hun { it with key := t.fn.dupKey newKey, index := t.cachedIndex }
    (hindex.trans_eq (List.length_modify ..).symm) (List.nodup_cons.mp hnodup).1
    (h.addr_lt it hit) le_rfl
  exact hlink.congr rfl rfl rfl rfl

lemma looked_cachedIndex_lt (h : Shape t) (hfit : t.LookupFits key) :
    (t.looked key).cachedIndex < (t.looked key).items.length := by
  rw [looked_cachedIndex]
  exact (shape_looked h hfit).bucket_lt key

/-- A bound on the items of a table, not below its load factor, that grows with the table. -/
structure Bounds (cap : Nat → Nat) : Prop where
  load : ∀ n, n * 75 / 100 ≤ cap n
  step : ∀ i < primes.length - growthFactor,
    cap (primes.getD i 0) < cap (primes.getD (i + growthFactor) 0)

section
variable {cap : Nat → Nat} (hcap : Bounds cap)
include hcap

lemma Bounds.grown (hroom : t.HasRoom) : cap t.limit < cap t.grown.limit :=
  hcap.step t.primeIndex (by
    rw [HasRoom] at hroom
    omega)

lemma Bounds.looked (hfit : t.LookupFits key) : cap t.limit ≤ cap (t.looked key).limit := by
  rw [Zhashx.looked]
  split
  · next hlong => exact (hcap.grown (hfit hlong)).le
  · exact le_rfl

end

lemma looked_size (t : Zhashx K V) (key : K) : (t.looked key).size = t.size := by
  rw [looked]
  split <;> rfl

lemma loaded_size (t : Zhashx K V) : t.loaded.size = t.size := by
  rw [loaded]
  split <;> rfl

/-- The table `t'` has the shape, and every such bound that `t` has. -/
structure After (t t' : Zhashx K V) : Prop where
  shape : Shape t'
  bound : ∀ {cap}, Bounds cap → t.size ≤ cap t.limit → t'.size ≤ cap t'.limit

lemma After.trans {t1 t2 : Zhashx K V} (h : After t t1) (h' : After t1 t2) : After t t2 :=
  ⟨h'.shape, fun hcap ht => h'.bound hcap (h.bound hcap ht)⟩

lemma after_looked (h : Shape t) (hfit : t.LookupFits key) : After t (t.looked key) where
  shape := shape_looked h hfit
  bound hcap ht := by
    rw [looked_size]
    exact ht.trans (hcap.looked hfit)

def Snug (t : Zhashx K V) : Prop := t.size ≤ t.limit

lemma after_insert (h : Shape t) (value : Option V) (hfit : t.InsertFits key) :
    ∃ rc t', t.insert key value = .ok (rc, t') ∧ After t t' := by
  have hloaded := shape_loaded h hfit.1
  have hlooked := shape_looked hloaded hfit.2
  have hsize : (t.loaded.looked key).size = t.size := (looked_size _ key).trans (loaded_size t)
  have hroom : ∀ {cap}, Bounds cap → t.size ≤ cap t.limit →
      t.size < cap (t.loaded.looked key).limit := by
    intro cap hcap ht
    refine lt_of_lt_of_le ?_ (hcap.looked hfit.2)
    rw [loaded]
    split
    · next hload => exact ht.trans_lt (hcap.grown (hfit.1 hload))
    · next hload =>
      rw [overloaded, decide_eq_true_eq, loadFactor] at hload
      have hmod : t.limit * 75 % 2 ^ 64 ≤ t.limit * 75 := Nat.mod_le _ _
      have hle := hcap.load t.limit
      omega
  rw [insert_of_fits value hfit]
  cases t.loaded.find key with
  | none =>
    refine ⟨_, _, rfl, shape_added hlooked key value (looked_cachedIndex_lt hloaded hfit.2),
      fun {cap} hcap ht => ?_⟩
    change (t.loaded.looked key).size + 1 ≤ cap (t.loaded.looked key).limit
    exact hsize ▸ hroom hcap ht
  | some it => exact ⟨_, _, rfl, hlooked, fun hcap ht => hsize ▸ (hroom hcap ht).le⟩

lemma mapStep_of_fits (h : Shape t) (op : MapOp K V) (hfit : t.MapFits op) :
    (∃ r t', t.mapStep op = .ok (r, t') ∧ After t t') ∨ t.mapStep op = .error .endlessLoop := by
  cases op with
  | insert key value =>
    obtain ⟨rc, t', he, ha⟩ := after_insert h value hfit
    exact .inl ⟨.rc rc, t', by rw [mapStep, he]; rfl, ha⟩
  | update key value =>
    have hlooked := after_looked h hfit.1
    cases hfind : t.find key with
    | none =>
      obtain ⟨rc, t', he, ha⟩ := after_insert hlooked.shape value (hfit.2 hfind)
      exact .inl ⟨.void, t', by rw [mapStep, update_of_find_none value hfit.1 hfind, he]; rfl,
        hlooked.trans ha⟩
    | some it =>
      exact .inl ⟨.void, _, by rw [mapStep, update_of_find_some value hfit.1 hfind]; rfl,
        shape_overwrite hlooked.shape it.addr value, hlooked.bound⟩
  | delete key =>
    have hlooked := after_looked h hfit
    cases hfind : t.find key with
    | none => exact .inl ⟨.void, _, by rw [mapStep, delete_of_find_none hfit hfind]; rfl, hlooked⟩
    | some it =>
      obtain ⟨it', hit', he⟩ := exists_mem_looked hfit (find_mem_all hfind)
      exact .inl ⟨.void, (t.looked key).disposed it',
        by rw [mapStep, delete_of_find_some h hfit hfind hit' he]; rfl,
        (shape_unlinked hlooked.shape hit').congr rfl rfl rfl rfl,
        fun hcap ht => (Nat.sub_le _ 1).trans (hlooked.bound hcap ht)⟩
  | lookup key =>
    have hlooked := after_looked h hfit
    cases hfind : t.find key with
    | none => exact .inl ⟨_, _, by rw [mapStep, lookup_of_find_none hfit hfind]; rfl, hlooked⟩
    | some it =>
      obtain ⟨it', hit', he⟩ := exists_mem_looked hfit (find_mem_all hfind)
      refine .inl ⟨_, _, by rw [mapStep, lookup_of_find_some h hfit hfind hit' he]; rfl, ?_, ?_⟩
      · exact hlooked.shape.congr rfl rfl rfl rfl
      · exact hlooked.bound
  | rename oldKey newKey =>
    have hold := after_looked h hfit.1
    have hlooked := hold.trans (after_looked hold.shape hfit.2)
    cases hfind : t.find oldKey with
    | none =>
      exact .inl ⟨_, _, by rw [mapStep, rename_of_not hfit.1 hfit.2 (.inl hfind)]; rfl, hlooked⟩
    | some it =>
      cases hfree : (t.looked oldKey).find newKey with
      | some x =>
        have hsome : ((t.looked oldKey).find newKey).isSome := by rw [hfree]; rfl
        exact .inl ⟨_, _, by rw [mapStep, rename_of_not hfit.1 hfit.2 (.inr hsome)]; rfl, hlooked⟩
      | none =>
        obtain ⟨x, hx, hxe⟩ := exists_mem_looked hfit.1 (find_mem_all hfind)
        obtain ⟨it', hit', he⟩ := exists_mem_looked hfit.2 hx
        have hstep := rename_of_find_some h hfit.1 hfit.2 hfind hfree hit' (he.trans hxe)
        refine .inl ⟨_, _, by rw [mapStep, hstep]; rfl, shape_renamed hlooked.shape hit' newKey
          (looked_cachedIndex_lt hold.shape hfit.2), fun {cap} hcap ht => ?_⟩
        -- the item goes out of the table and comes back
        have hpos := hlooked.shape.size_eq.symm ▸ List.length_pos_of_mem hit'
        change _ - 1 + 1 ≤ cap ((t.looked oldKey).looked newKey).limit
        rw [Nat.sub_add_cancel hpos]
        exact hlooked.bound hcap ht
  | freefn key f =>
    have hlooked := after_looked h hfit
    cases hfind : t.find key with
    | none => exact .inl ⟨_, _, by rw [mapStep, freefn_of_find_none f hfit hfind]; rfl, hlooked⟩
    | some it =>
      obtain ⟨it', hit', he⟩ := exists_mem_looked hfit (find_mem_all hfind)
      refine .inl ⟨_, _, by rw [mapStep, freefn_of_find_some h f hfit hfind hit' he]; rfl, ?_, ?_⟩
      · exact shape_modifyItem hlooked.shape _ (fun _ => rfl) fun _ => rfl
      · exact hlooked.bound
  | purge =>
    by_cases hlim : t.limit < 2 ^ 32
    · obtain ⟨t', he, hs, hall, -⟩ := purge_of_lt h hlim
      refine .inl ⟨.void, t', by rw [mapStep, he]; rfl, hs, fun _ _ => ?_⟩
      rw [hs.size_eq, hall]
      exact Nat.zero_le _
    · exact .inr (by rw [mapStep, purge, sPurge_of_ge h (by omega)]; rfl)

lemma mapStep_of_not_fits (h : Shape t) (op : MapOp K V)
    (hfit : ¬ t.MapFits op) : ∃ i, t.mapStep op = .error (.outOfBounds i) := by
  cases op with
  | insert key value =>
    obtain ⟨i, he⟩ := h.insert_of_not_fits value hfit
    exact ⟨i, by rw [mapStep, he]; rfl⟩
  | update key value =>
    by_cases hlook : t.LookupFits key
    · have hins : ¬ (t.find key = none → (t.looked key).InsertFits key) := fun hi => hfit ⟨hlook, hi⟩
      obtain ⟨hfind, hins⟩ := Classical.not_imp.mp hins
      obtain ⟨i, he⟩ := (shape_looked h hlook).insert_of_not_fits value hins
      exact ⟨i, by rw [mapStep, update_of_find_none value hlook hfind, he]; rfl⟩
    · exact ⟨_, by rw [mapStep, update, h.sItemLookup_of_not_fits hlook]; rfl⟩
  | delete key => exact ⟨_, by rw [mapStep, delete, h.sItemLookup_of_not_fits hfit]; rfl⟩
  | lookup key => exact ⟨_, by rw [mapStep, lookup, h.sItemLookup_of_not_fits hfit]; rfl⟩
  | rename oldKey newKey =>
    by_cases hlook : t.LookupFits oldKey
    · have hnew : ¬ (t.looked oldKey).LookupFits newKey := fun hn => hfit ⟨hlook, hn⟩
      have he := (shape_looked h hlook).sItemLookup_of_not_fits hnew
      refine ⟨(t.looked oldKey).primeIndex + growthFactor, ?_⟩
      rw [mapStep, rename, sItemLookup_of_fits hlook]
      change (((t.looked oldKey).sItemLookup newKey >>= _) >>= _) = _
      rw [he]
      rfl
    · exact ⟨_, by rw [mapStep, rename, h.sItemLookup_of_not_fits hlook]; rfl⟩
  | freefn key f => exact ⟨_, by rw [mapStep, freefn, h.sItemLookup_of_not_fits hfit]; rfl⟩
  | purge => exact absurd trivial hfit

end Zhashx

end Czmq
