import Czmq.Zhashx.Table

/-! What every table keeps whatever its callbacks do, and the closed form of growth, after a walk
along a chain and before an insertion. -/

namespace Czmq

open List Buckets

variable {K V : Type}

def Item.unplaced (it : Item K V) : Item K V := { it with index := 0 }

@[simp] lemma Item.unplaced_addr (it : Item K V) : it.unplaced.addr = it.addr := rfl
@[simp] lemma Item.unplaced_key (it : Item K V) : it.unplaced.key = it.key := rfl
@[simp] lemma Item.unplaced_value (it : Item K V) : it.unplaced.value = it.value := rfl

namespace Zhashx

def all (t : Zhashx K V) : List (Item K V) := t.items.flatten

def entries (t : Zhashx K V) : List (Item K V) := t.all.map Item.unplaced

structure Shape (t : Zhashx K V) : Prop where
  prime_lt : t.primeIndex < primes.length
  length_eq : t.items.length = t.limit
  placed : Placed (·.index) t.items
  size_eq : t.size = t.all.length
  addr_nodup : (t.all.map (·.addr)).Nodup
  addr_lt : ∀ it ∈ t.all, it.addr < t.fresh

variable {t : Zhashx K V}

lemma Shape.congr {t' : Zhashx K V} (h : Shape t) (hp : t'.primeIndex = t.primeIndex)
    (hi : t'.items = t.items) (hs : t'.size = t.size) (hf : t'.fresh = t.fresh) : Shape t' where
  prime_lt := hp ▸ h.prime_lt
  length_eq := by rw [hi, h.length_eq, limit, limit, hp]
  placed := hi ▸ h.placed
  size_eq := by rw [hs, h.size_eq, all, all, hi]
  addr_nodup := by rw [all, hi]; exact h.addr_nodup
  addr_lt := by rw [all, hi, hf]; exact h.addr_lt

variable {i : Nat}

lemma primes_getD_pos (hi : i < primes.length) : 0 < primes.getD i 0 := by
  rw [getD_eq_getElem?_getD, getElem?_eq_getElem hi, Option.getD_some]
  have := primes_ge_three _ (getElem_mem hi)
  omega

lemma Shape.limit_pos (h : Shape t) : 0 < t.limit := primes_getD_pos h.prime_lt

lemma Shape.bucket_lt (h : Shape t) (key : K) :
    t.bucket key < t.items.length := by
  rw [h.length_eq]
  exact Nat.mod_lt _ h.limit_pos

lemma shape_new (fn : Callbacks K V) : Shape (new fn) where
  prime_lt := by rw [primes_length]; exact Nat.zero_lt_succ _
  length_eq := by simp [new, limit]
  placed := placed_replicate _ _
  size_eq := by simp [new, all]
  addr_nodup := by simp [new, all]
  addr_lt := by simp [new, all]

variable {it : Item K V}

lemma Shape.itemAt_eq_some (h : Shape t) {a : Nat} :
    t.itemAt a = some it ↔ it ∈ t.all ∧ it.addr = a := by
  constructor
  · intro he
    exact ⟨mem_of_find?_eq_some he, by simpa using find?_some he⟩
  · rintro ⟨hmem, rfl⟩
    rw [itemAt]
    cases hf : t.items.flatten.find? (·.addr == it.addr) with
    | none => simpa using find?_eq_none.mp hf it hmem
    | some it' =>
      have haddr : it'.addr = it.addr := by simpa using find?_some hf
      have := inj_on_of_nodup_map h.addr_nodup (mem_of_find?_eq_some hf) hmem haddr
      rw [this]

def refile (fn : Callbacks K V) (limit : Nat) (it : Item K V) : Item K V :=
  { it with index := (fn.hasher it.key).toNat % limit }

def rehashed (t : Zhashx K V) (i : Nat) : Zhashx K V :=
  { t with
    items := pushAll (·.index) (refile t.fn (primes.getD i 0)) t.all
      (replicate (primes.getD i 0) [])
    primeIndex := i }

lemma sZhashxRehash_of_lt (t : Zhashx K V) (hi : i < primes.length) :
    t.sZhashxRehash i = .ok (t.rehashed i) := by
  have hsize : i < sizeofPrimes := by rw [sizeofPrimes]; omega
  rw [sZhashxRehash, if_pos hsize]
  simp only [rehashed, pushAll, all, foldl_flatten, getD_eq_getElem?_getD,
    getElem?_eq_getElem hi]
  rfl

lemma sZhashxRehash_of_ge (t : Zhashx K V) (hi : primes.length ≤ i)
    (hsize : i < sizeofPrimes) : t.sZhashxRehash i = .error (.outOfBounds i) := by
  rw [sZhashxRehash, if_pos hsize, getElem?_eq_none hi]

lemma all_rehashed_perm (t : Zhashx K V) (hi : i < primes.length) :
    (t.rehashed i).all.Perm (t.all.map (refile t.fn (primes.getD i 0))) := by
  have := flatten_pushAll_perm (·.index) (refile t.fn (primes.getD i 0)) t.all
    (replicate (primes.getD i 0) [])
    (fun it _ => by rw [length_replicate]; exact Nat.mod_lt _ (primes_getD_pos hi))
  simpa [rehashed, all] using this

lemma entries_rehashed_perm (t : Zhashx K V) (hi : i < primes.length) :
    (t.rehashed i).entries.Perm t.entries := by
  have := (all_rehashed_perm t hi).map Item.unplaced
  rwa [map_map] at this

lemma length_entries (t : Zhashx K V) : t.entries.length = t.all.length := by simp [entries]

lemma map_addr_entries (t : Zhashx K V) : t.entries.map (·.addr) = t.all.map (·.addr) := by
  simp [entries]

lemma mem_entries_of_mem_all (h : it ∈ t.all) :
    it.unplaced ∈ t.entries := mem_map_of_mem h

lemma exists_mem_all_of_mem_entries {e : Item K V} (h : e ∈ t.entries) :
    ∃ it ∈ t.all, it.unplaced = e := mem_map.mp h

lemma shape_rehashed (h : Shape t) (hi : i < primes.length) :
    Shape (t.rehashed i) := by
  have hperm := entries_rehashed_perm t hi
  refine ⟨hi, ?_, ?_, ?_, ?_, ?_⟩
  · simp [rehashed, limit]
  · exact (placed_replicate _ _).pushAll _ _
  · rw [← length_entries, hperm.length_eq, length_entries]
    exact h.size_eq
  · rw [← map_addr_entries]
    refine (hperm.map _).nodup_iff.mpr ?_
    rw [map_addr_entries]
    exact h.addr_nodup
  · intro it hit
    obtain ⟨it', hit', he⟩ := exists_mem_all_of_mem_entries
      (hperm.mem_iff.mp (mem_entries_of_mem_all hit))
    have haddr : it'.unplaced.addr = it.unplaced.addr := congrArg Item.addr he
    exact haddr ▸ h.addr_lt it' hit'

/-! ## Growth -/

def HasRoom (t : Zhashx K V) : Prop := t.primeIndex + growthFactor < primes.length

instance (t : Zhashx K V) : Decidable t.HasRoom :=
  inferInstanceAs (Decidable (_ < _))

def grown (t : Zhashx K V) : Zhashx K V :=
  { t.rehashed (t.primeIndex + growthFactor) with chainLimit := t.chainLimit + chainGrows }

lemma shape_grown (h : Shape t) (hroom : t.HasRoom) : Shape t.grown :=
  (shape_rehashed h hroom).congr rfl rfl rfl rfl

lemma Shape.growth_lt_sizeof (h : Shape t) :
    t.primeIndex + growthFactor < sizeofPrimes := by
  have := h.prime_lt
  rw [primes_length] at this
  rw [sizeofPrimes, primes_length, growthFactor]
  omega

def chainTooLong (t : Zhashx K V) (key : K) : Bool :=
  t.chainLimit < (walk t.fn key (t.items.getD (t.bucket key) []) 0).2.toNat

def find (t : Zhashx K V) (key : K) : Option (Item K V) :=
  (t.items.getD (t.bucket key) []).find? (t.fn.sameKey · key)

lemma walk_fst (fn : Callbacks K V) (key : K) (chain : List (Item K V)) (len : UInt32) :
    (walk fn key chain len).1 = chain.find? (fn.sameKey · key) := by
  induction chain generalizing len with
  | nil => rfl
  | cons it chain ih =>
    rw [walk, find?_cons]
    cases hk : fn.sameKey it key with
    | true => rfl
    | false => simpa [hk] using ih (len + 1)

def looked (t : Zhashx K V) (key : K) : Zhashx K V :=
  if t.chainTooLong key then { t.grown with cachedIndex := t.grown.bucket key }
  else { t with cachedIndex := t.bucket key }

def LookupFits (t : Zhashx K V) (key : K) : Prop := t.chainTooLong key = true → t.HasRoom

lemma sItemLookup_eq (t : Zhashx K V) (key : K) :
    t.sItemLookup key = if t.chainTooLong key then do
        let t' ← t.sZhashxRehash (t.primeIndex + growthFactor)
        pure ((t.find key).map (·.addr),
          { t' with cachedIndex := t'.bucket key, chainLimit := t'.chainLimit + chainGrows })
      else pure ((t.find key).map (·.addr), { t with cachedIndex := t.bucket key }) := by
  have hwalk := walk_fst t.fn key (t.items.getD (t.bucket key) []) 0
  rw [sItemLookup, chainTooLong, find, ← hwalk]
  simp only [decide_eq_true_eq, sZhashxRehash]
  by_cases hlong : t.chainLimit < (walk t.fn key (t.items.getD (t.bucket key) []) 0).2.toNat
  · rw [if_pos hlong]
    split
    · split <;> rfl
    · rfl
  · rw [if_neg hlong, if_neg hlong]

lemma sItemLookup_of_fits {key : K} (hfit : t.LookupFits key) :
    t.sItemLookup key = .ok ((t.find key).map (·.addr), t.looked key) := by
  rw [sItemLookup_eq, looked]
  cases hlong : t.chainTooLong key with
  | false => rfl
  | true =>
    rw [sZhashxRehash_of_lt t (hfit hlong)]
    rfl

lemma Shape.sItemLookup_of_not_fits (h : Shape t) {key : K} (hfit : ¬ t.LookupFits key) :
    t.sItemLookup key = .error (.outOfBounds (t.primeIndex + growthFactor)) := by
  obtain ⟨hlong, hroom⟩ := Classical.not_imp.mp hfit
  rw [sItemLookup_eq, if_pos hlong,
    sZhashxRehash_of_ge t (Nat.le_of_not_lt hroom) h.growth_lt_sizeof]
  rfl

lemma shape_looked (h : Shape t) {key : K} (hfit : t.LookupFits key) :
    Shape (t.looked key) := by
  rw [looked]
  split
  · next hlong => exact (shape_grown h (hfit hlong)).congr rfl rfl rfl rfl
  · exact h.congr rfl rfl rfl rfl

lemma entries_looked_perm {key : K} (hfit : t.LookupFits key) :
    (t.looked key).entries.Perm t.entries := by
  rw [looked]
  split
  · next hlong => exact entries_rehashed_perm t (hfit hlong)
  · exact Perm.refl _

@[simp] lemma looked_fn (t : Zhashx K V) (key : K) : (t.looked key).fn = t.fn := by
  rw [looked]; split <;> rfl

@[simp] lemma looked_cachedIndex (t : Zhashx K V) (key : K) :
    (t.looked key).cachedIndex = (t.looked key).bucket key := by
  rw [looked]; split <;> rfl

def loaded (t : Zhashx K V) : Zhashx K V := if t.overloaded then t.grown else t

def LoadFits (t : Zhashx K V) : Prop := t.overloaded = true → t.HasRoom

lemma growIfOverloaded_of_fits (hfit : t.LoadFits) :
    t.growIfOverloaded = .ok t.loaded := by
  rw [growIfOverloaded, loaded]
  cases hload : t.overloaded with
  | false => rfl
  | true =>
    rw [sZhashxRehash_of_lt t (hfit hload)]
    rfl

lemma shape_loaded (h : Shape t) (hfit : t.LoadFits) : Shape t.loaded := by
  rw [loaded]
  split
  · next hload => exact shape_grown h (hfit hload)
  · exact h

lemma entries_loaded_perm (hfit : t.LoadFits) :
    t.loaded.entries.Perm t.entries := by
  rw [loaded]
  split
  · next hload => exact entries_rehashed_perm t (hfit hload)
  · exact Perm.refl _

@[simp] lemma loaded_fn (t : Zhashx K V) : t.loaded.fn = t.fn := by
  rw [loaded]; split <;> rfl

lemma all_link_perm {item : Item K V} (hi : item.index < t.items.length) :
    (t.link item).all.Perm (item :: t.all) := flatten_push_perm hi item

lemma shape_link (h : Shape t) (item : Item K V)
    (hi : item.index < t.items.length) (hnew : item.addr ∉ t.all.map (·.addr)) {fresh : Nat}
    (haddr : item.addr < fresh) (hfresh : t.fresh ≤ fresh) :
    Shape { t.link item with fresh := fresh } := by
  have hperm := all_link_perm hi
  refine ⟨h.prime_lt, ?_, ?_, ?_, ?_, ?_⟩
  · exact (length_push _ _ _).trans h.length_eq
  · exact h.placed.push rfl
  · rw [show all { t.link item with fresh := fresh } = (t.link item).all from rfl,
      hperm.length_eq, length_cons, ← h.size_eq]
    rfl
  · refine (hperm.map _).nodup_iff.mpr ?_
    exact nodup_cons.mpr ⟨hnew, h.addr_nodup⟩
  · intro it hit
    rcases mem_cons.mp (hperm.mem_iff.mp hit) with rfl | hit
    · exact haddr
    · exact (h.addr_lt it hit).trans_le hfresh

def unlinked (t : Zhashx K V) (it : Item K V) : Zhashx K V :=
  { t with
    items := t.items.modify it.index (·.eraseP (·.addr == it.addr))
    size := t.size - 1 }

def disposed (t : Zhashx K V) (it : Item K V) : Zhashx K V :=
  { t.unlinked it with
    cursorItem := none
    cursorKey := none
    calls := t.fn.disposeKey it ++ t.fn.disposeValue it ++ t.calls }

lemma Shape.sItemDestroy_of_mem (h : Shape t) (hit : it ∈ t.all) (hard : Bool) :
    t.sItemDestroy it.addr hard = .ok (it, if hard then t.disposed it else t.unlinked it) := by
  have hany : (t.items.getD it.index []).any (·.addr == it.addr) = true :=
    any_eq_true.mpr ⟨it, h.placed.mem_getD hit, by simp⟩
  rw [sItemDestroy, h.itemAt_eq_some.mpr ⟨hit, rfl⟩]
  simp only [hany]
  cases hard <;> rfl

lemma all_unlinked_perm (h : Shape t) (hit : it ∈ t.all) :
    (it :: (t.unlinked it).all).Perm t.all := by
  have hmem := h.placed.mem_getD hit
  obtain ⟨l, r, he, hf⟩ := flatten_split (h.placed.lt_length hit)
  obtain ⟨x, c1, c2, _, hx, hc, hc'⟩ :=
    exists_of_eraseP (p := (·.addr == it.addr)) hmem (by simp)
  have hxall : x ∈ t.all := mem_flatten_of_mem_getD (by rw [hc]; simp)
  have hxit : x = it :=
    inj_on_of_nodup_map h.addr_nodup hxall hit (by simpa using hx)
  subst hxit
  have hall : t.all = l ++ (c1 ++ x :: c2) ++ r := by rw [all, he, hc]
  have hall' : (t.unlinked x).all = l ++ (c1 ++ c2) ++ r := by
    exact (hf _).trans (by rw [hc'])
  have hmiddle : (l ++ c1 ++ x :: (c2 ++ r)).Perm (x :: (l ++ c1 ++ (c2 ++ r))) := perm_middle
  rw [hall, hall']
  simpa [append_assoc] using hmiddle.symm

lemma shape_unlinked (h : Shape t) (hit : it ∈ t.all) :
    Shape (t.unlinked it) := by
  have hperm := all_unlinked_perm h hit
  have hnodup := (hperm.map (·.addr)).nodup_iff.mpr h.addr_nodup
  refine ⟨h.prime_lt, ?_, ?_, ?_, ?_, ?_⟩
  · exact (length_modify ..).trans h.length_eq
  · exact h.placed.modify_of_subset _ fun c => eraseP_subset
  · have hsize := h.size_eq
    rw [← hperm.length_eq, length_cons] at hsize
    change t.size - 1 = _
    omega
  · exact (nodup_cons.mp hnodup).2
  · exact fun x hx => h.addr_lt x (hperm.mem_iff.mp (mem_cons_of_mem _ hx))

lemma all_modifyItem (t : Zhashx K V) (a : Nat) (f : Item K V → Item K V) :
    (t.modifyItem a f).all = t.all.map fun it => if it.addr == a then f it else it := by
  simp [modifyItem, all]

lemma shape_modifyItem (h : Shape t) (a : Nat) {f : Item K V → Item K V}
    (hindex : ∀ it, (f it).index = it.index) (haddr : ∀ it, (f it).addr = it.addr) :
    Shape (t.modifyItem a f) := by
  have hkeep : ∀ it : Item K V, (if it.addr == a then f it else it).addr = it.addr := by
    intro it
    split
    · exact haddr it
    · rfl
  have haddrs : (t.modifyItem a f).all.map (·.addr) = t.all.map (·.addr) := by
    rw [all_modifyItem, map_map]
    exact map_congr_left fun it _ => hkeep it
  refine ⟨h.prime_lt, ?_, ?_, ?_, ?_, ?_⟩
  · exact (length_map _).trans h.length_eq
  · intro i it hit
    have hget : (t.modifyItem a f).items.getD i [] =
        (t.items.getD i []).map fun it => if it.addr == a then f it else it := by
      simp only [modifyItem, getD_eq_getElem?_getD, getElem?_map]
      cases t.items[i]? <;> rfl
    rw [hget] at hit
    obtain ⟨it', hit', rfl⟩ := mem_map.mp hit
    have := h.placed i it' hit'
    split
    · exact (hindex it').trans this
    · exact this
  · rw [all_modifyItem, length_map]
    exact h.size_eq
  · rw [haddrs]
    exact h.addr_nodup
  · intro it hit
    rw [all_modifyItem] at hit
    obtain ⟨it', hit', rfl⟩ := mem_map.mp hit
    rw [hkeep]
    exact h.addr_lt it' hit'

/-! ## Purging -/

lemma getD_disposed_head (h : Shape t)
    {chain : List (Item K V)} (hchain : t.items.getD i [] = it :: chain) :
    (t.disposed it).items = t.items.set i chain := by
  have hmem : it ∈ t.items.getD i [] := by rw [hchain]; exact mem_cons_self ..
  have hindex : it.index = i := h.placed i it hmem
  have hi : i < t.items.length := by
    rw [← hindex]
    exact h.placed.lt_length (mem_flatten_of_mem_getD hmem)
  have hget : t.items[i] = it :: chain := by
    rwa [getD_eq_getElem?_getD, getElem?_eq_getElem hi] at hchain
  change t.items.modify it.index _ = _
  rw [hindex, modify_eq_set_getElem?, getElem?_eq_getElem hi, hget]
  simp

lemma destroyChain_eq (chain : List (Item K V)) (h : Shape t) (hget : t.items.getD i [] = chain) :
    ∃ t', destroyChain chain t = .ok t' ∧ Shape t' ∧ t'.items = t.items.set i [] ∧
      t'.primeIndex = t.primeIndex ∧ t'.fn = t.fn ∧ t'.fresh = t.fresh := by
  induction chain generalizing t with
  | nil =>
    refine ⟨t, rfl, h, ?_, rfl, rfl, rfl⟩
    by_cases hi : i < t.items.length
    · rw [getD_eq_getElem?_getD, getElem?_eq_getElem hi] at hget
      rw [← hget]
      exact (set_getElem_self hi).symm
    · exact (set_eq_of_length_le (by omega)).symm
  | cons it chain ih =>
    have hit : it ∈ t.all :=
      mem_flatten_of_mem_getD (by rw [hget]; exact mem_cons_self ..)
    have hi : i < t.items.length := by
      by_contra hge
      rw [getD_eq_getElem?_getD, getElem?_eq_none (by omega)] at hget
      cases hget
    have hitems := getD_disposed_head h hget
    have hshape : Shape (t.disposed it) := (shape_unlinked h hit).congr rfl rfl rfl rfl
    have hnext : (t.disposed it).items.getD i [] = chain := by
      rw [hitems, getD_eq_getElem?_getD, getElem?_set_self hi]
      rfl
    obtain ⟨t', he, hs, hset, hrest⟩ := ih hshape hnext
    refine ⟨t', ?_, hs, ?_, hrest⟩
    · rw [destroyChain, h.sItemDestroy_of_mem hit]
      exact he
    · rw [hset, hitems, set_set]

lemma purgeBucket_eq (h : Shape t) (i : Nat) :
    ∃ t', t.purgeBucket i = .ok t' ∧ Shape t' ∧ t'.items = t.items.set i [] ∧
      t'.primeIndex = t.primeIndex ∧ t'.fn = t.fn ∧ t'.fresh = t.fresh := by
  obtain ⟨t', he, hs, hset, hrest⟩ := destroyChain_eq _ h rfl
  refine ⟨{ t' with items := t'.items.set i [] }, ?_, ?_, ?_, hrest⟩
  · rw [purgeBucket, he]
    rfl
  · refine hs.congr rfl ?_ rfl rfl
    simp [hset]
  · simp [hset]

lemma foldlM_purgeBucket (h : Shape t) (n : Nat) :
    ∃ t', (range n).foldlM purgeBucket t = .ok t' ∧ Shape t' ∧
      (∀ i < n, t'.items.getD i [] = []) ∧
      t'.primeIndex = t.primeIndex ∧ t'.fn = t.fn ∧ t'.fresh = t.fresh := by
  induction n with
  | zero => exact ⟨t, rfl, h, fun i hi => absurd hi (by omega), rfl, rfl, rfl⟩
  | succ n ih =>
    obtain ⟨t', he, hs, hempty, hp, hfn, hfr⟩ := ih
    obtain ⟨t'', he', hs', hset, hp', hfn', hfr'⟩ := purgeBucket_eq hs n
    refine ⟨t'', ?_, hs', ?_, hp'.trans hp, hfn'.trans hfn, hfr'.trans hfr⟩
    · rw [range_succ, foldlM_append, he]
      change (foldlM purgeBucket t' [n]) = _
      rw [foldlM_cons, he']
      rfl
    · intro i hi
      rw [hset, getD_eq_getElem?_getD, getElem?_set]
      by_cases hin : n = i
      ·
        split_ifs <;> rfl
      · rw [if_neg hin]
        exact hempty i (by omega)

lemma sPurge_of_lt (h : Shape t) (hlim : t.limit < 2 ^ 32) :
    ∃ t', t.sPurge = .ok t' ∧ Shape t' ∧ t'.all = [] ∧
      t'.primeIndex = t.primeIndex ∧ t'.fn = t.fn ∧ t'.fresh = t.fresh := by
  obtain ⟨t', he, hs, hempty, hp, hfn, hfr⟩ := foldlM_purgeBucket h t.limit
  refine ⟨t', ?_, hs, ?_, hp, hfn, hfr⟩
  · rw [sPurge, Loop.forUint_eq_foldlM _ _ _ hlim, he]
  · have hlen : t'.items.length = t.limit := by rw [hs.length_eq, limit, limit, hp]
    rw [all, flatten_eq_nil_iff]
    intro chain hchain
    obtain ⟨i, hi, rfl⟩ := mem_iff_getElem.mp hchain
    have := hempty i (by omega)
    rwa [getD_eq_getElem?_getD, getElem?_eq_getElem hi] at this

lemma sPurge_of_ge (h : Shape t) (hlim : 2 ^ 32 ≤ t.limit) :
    t.sPurge = .error .endlessLoop := by
  refine Loop.forUint_endless Fault.endlessLoop Shape (fun t i ht => ?_) h hlim
  obtain ⟨t', he, hs, _⟩ := purgeBucket_eq ht i
  exact ⟨t', he, hs⟩

lemma purge_of_lt (h : Shape t) (hlim : t.limit < 2 ^ 32) :
    ∃ t', t.purge = .ok t' ∧ Shape t' ∧ t'.all = [] ∧ t'.fn = t.fn := by
  obtain ⟨t', he, hs, hall, _, hfn, _⟩ := sPurge_of_lt h hlim
  rw [purge, he]
  by_cases hp : initialPrime < t'.primeIndex
  · refine ⟨{ t' with
      primeIndex := initialPrime
      chainLimit := initialChain
      items := replicate (primes.getD initialPrime 0) [] }, ?_, ?_, ?_, hfn⟩
    · simp [hp]
      rfl
    · have hnew := shape_new t'.fn
      refine ⟨hnew.prime_lt, hnew.length_eq, hnew.placed, ?_, ?_, ?_⟩
      · rw [hs.size_eq, hall]
        simp [all]
      · simp [all]
      · simp [all]
    · simp [all]
  · exact ⟨t', by simp [hp]; rfl, hs, hall, hfn⟩

lemma range_map_getD {α : Type} (l : List α) (d : α) :
    (range l.length).map (fun i => l.getD i d) = l := by
  apply ext_getElem
  · simp
  · intro i h1 h2
    simp [getElem?_eq_getElem h2]

section
variable {σ : Type} {t : Zhashx K V}

lemma Shape.forUint_chains (h : Shape t) (hlim : t.limit < 2 ^ 32)
    (body : List (Item K V) → σ → Except Fault σ) (s : σ) :
    Loop.forUint t.limit .endlessLoop (fun s index => body (t.items.getD index []) s) s =
      t.items.foldlM (fun s chain => body chain s) s := by
  rw [Loop.forUint_eq_foldlM _ _ _ hlim, ← h.length_eq]
  conv_rhs => rw [← range_map_getD t.items []]
  rw [foldlM_map]

lemma Shape.forUint_items (h : Shape t) (hlim : t.limit < 2 ^ 32)
    (body : σ → Item K V → Except Fault σ) (s : σ) :
    Loop.forUint t.limit .endlessLoop (fun s index => (t.items.getD index []).foldlM body s) s =
      t.all.foldlM body s := by
  rw [h.forUint_chains hlim (fun chain s => chain.foldlM body s), Loop.foldlM_flatten]
  rfl

end

end Zhashx

end Czmq
