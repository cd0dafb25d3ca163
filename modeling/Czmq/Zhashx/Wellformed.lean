import Czmq.Zhashx.Operations

/-! Tables whose comparator is an equivalence that the hasher respects: every item is in the bucket
of its key and no two keys compare equal, so that lookups only depend on the entries up to
permutation. -/

namespace Czmq

variable {K V : Type}

/-- The comparator is an equivalence, equal keys hash equally, and a stored key equals its origin.
-/
structure Callbacks.Lawful (fn : Callbacks K V) : Prop where
  refl : ∀ a, fn.keyComparator a a = 0
  symm : ∀ a b, fn.keyComparator a b = 0 → fn.keyComparator b a = 0
  trans : ∀ a b c, fn.keyComparator a b = 0 → fn.keyComparator b c = 0 → fn.keyComparator a c = 0
  hash_eq : ∀ a b, fn.keyComparator a b = 0 → fn.hasher a = fn.hasher b
  dup_key : ∀ a, fn.keyComparator (fn.dupKey a) a = 0

lemma Callbacks.sameKey_iff (fn : Callbacks K V) (it : Item K V) (key : K) :
    fn.sameKey it key = true ↔ fn.keyComparator it.key key = 0 := by simp [Callbacks.sameKey]

namespace Zhashx

def Apart (fn : Callbacks K V) (a b : Item K V) : Prop := fn.keyComparator a.key b.key ≠ 0

/-- Shape, every item in the bucket of its key, keys all different. -/
structure Wf (t : Zhashx K V) : Prop extends Shape t where
  hashed : ∀ it ∈ t.all, it.index = t.bucket it.key
  distinct : t.entries.Pairwise (Apart t.fn)

def entryOf (t : Zhashx K V) (key : K) : Option (Item K V) :=
  t.entries.find? (t.fn.sameKey · key)

lemma wf_new (fn : Callbacks K V) : Wf (new fn) where
  toShape := shape_new fn
  hashed := by simp [new, all]
  distinct := by simp [new, all, entries]

variable {t : Zhashx K V}

lemma Wf.congr {t' : Zhashx K V} (h : Wf t) (hp : t'.primeIndex = t.primeIndex)
    (hi : t'.items = t.items) (hs : t'.size = t.size) (hf : t'.fresh = t.fresh)
    (hfn : t'.fn = t.fn) : Wf t' where
  toShape := h.toShape.congr hp hi hs hf
  hashed := by
    rw [all, hi]
    intro it hit
    rw [h.hashed it hit, bucket, bucket, limit, limit, hp, hfn]
  distinct := by
    rw [entries, all, hi, hfn]
    exact h.distinct

section
variable {fn : Callbacks K V}

lemma apart_symm (hfn : fn.Lawful) {a b : Item K V} (h : Apart fn a b) : Apart fn b a :=
  fun hba => h (hfn.symm _ _ hba)

variable {l : List (Item K V)}

lemma pairwise_apart_perm (hfn : fn.Lawful) {l' : List (Item K V)} (hperm : l.Perm l') :
    l.Pairwise (Apart fn) ↔ l'.Pairwise (Apart fn) :=
  hperm.pairwise_iff fun h => apart_symm hfn h

lemma find?_sameKey_perm (hfn : fn.Lawful) {l' : List (Item K V)} (hperm : l.Perm l')
    (h : l.Pairwise (Apart fn)) (key : K) :
    l.find? (fn.sameKey · key) = l'.find? (fn.sameKey · key) := by
  refine Buckets.find?_perm hperm (h.imp fun {x y} hxy hboth => hxy ?_)
  rw [fn.sameKey_iff, fn.sameKey_iff] at hboth
  exact hfn.trans _ _ _ hboth.1 (hfn.symm _ _ hboth.2)

end

lemma Wf.find_map_unplaced (h : Wf t) (hfn : t.fn.Lawful) (key : K) :
    (t.find key).map Item.unplaced = t.entryOf key := by
  have hfind : t.find key = t.all.find? (t.fn.sameKey · key) := by
    refine (h.placed.find?_flatten fun it hit hsame => ?_).symm
    rw [t.fn.sameKey_iff] at hsame
    rw [h.hashed it hit, bucket, bucket, hfn.hash_eq _ _ hsame]
  rw [hfind, entryOf, entries, List.find?_map]
  rfl

lemma Wf.find_eq_none_iff (h : Wf t) (hfn : t.fn.Lawful) (key : K) :
    t.find key = none ↔ t.entryOf key = none := by
  rw [← h.find_map_unplaced hfn, Option.map_eq_none_iff]

lemma wf_rehashed (h : Wf t) (hfn : t.fn.Lawful) {i : Nat}
    (hi : i < primes.length) : Wf (t.rehashed i) where
  toShape := shape_rehashed h.toShape hi
  hashed := by
    intro it hit
    obtain ⟨x, _, rfl⟩ := List.mem_map.mp ((all_rehashed_perm t hi).mem_iff.mp hit)
    rfl
  distinct := (pairwise_apart_perm hfn (entries_rehashed_perm t hi)).mpr h.distinct

variable {key : K}

lemma wf_looked (h : Wf t) (hfn : t.fn.Lawful) (hfit : t.LookupFits key) : Wf (t.looked key) := by
  rw [looked]
  split
  · next hlong => exact (wf_rehashed h hfn (hfit hlong)).congr rfl rfl rfl rfl rfl
  · exact h.congr rfl rfl rfl rfl rfl

lemma wf_loaded (h : Wf t) (hfn : t.fn.Lawful) (hfit : t.LoadFits) :
    Wf t.loaded := by
  rw [loaded]
  split
  · next hload => exact (wf_rehashed h hfn (hfit hload)).congr rfl rfl rfl rfl rfl
  · exact h

lemma entryOf_looked (h : Wf t) (hfn : t.fn.Lawful)
    (hfit : t.LookupFits key) (k : K) : (t.looked key).entryOf k = t.entryOf k := by
  rw [entryOf, looked_fn]
  exact (find?_sameKey_perm hfn (entries_looked_perm hfit).symm h.distinct k).symm

lemma entryOf_loaded (h : Wf t) (hfn : t.fn.Lawful) (hfit : t.LoadFits)
    (k : K) : t.loaded.entryOf k = t.entryOf k := by
  rw [entryOf, loaded_fn]
  exact (find?_sameKey_perm hfn (entries_loaded_perm hfit).symm h.distinct k).symm

lemma entryOf_eq_none_iff :
    t.entryOf key = none ↔ ∀ e ∈ t.entries, t.fn.keyComparator e.key key ≠ 0 := by
  rw [entryOf, List.find?_eq_none]
  refine forall₂_congr fun e _ => ?_
  rw [t.fn.sameKey_iff]

lemma wf_link (h : Wf t) (hfn : t.fn.Lawful) {item : Item K V}
    (hindex : item.index = t.bucket item.key) (hnew : t.entryOf item.key = none) {fresh : Nat}
    (hshape : Shape { t.link item with fresh := fresh }) :
    Wf { t.link item with fresh := fresh } where
  toShape := hshape
  hashed := by
    have hi : item.index < t.items.length := hindex ▸ h.bucket_lt item.key
    intro it hit
    rcases List.mem_cons.mp ((all_link_perm hi).mem_iff.mp hit) with rfl | hit
    · exact hindex
    · exact h.hashed it hit
  distinct := by
    have hi : item.index < t.items.length := hindex ▸ h.bucket_lt item.key
    have hperm : (entries { t.link item with fresh := fresh }).Perm (item.unplaced :: t.entries) :=
      (all_link_perm hi).map Item.unplaced
    refine (pairwise_apart_perm hfn hperm).mpr (List.pairwise_cons.mpr ⟨?_, h.distinct⟩)
    intro e he hsame
    exact entryOf_eq_none_iff.mp hnew e he (hfn.symm _ _ hsame)

lemma entries_link_perm (h : Shape t) {item : Item K V}
    (hindex : item.index = t.bucket item.key) :
    (t.link item).entries.Perm (item.unplaced :: t.entries) :=
  (all_link_perm (hindex ▸ h.bucket_lt item.key)).map Item.unplaced

variable {it : Item K V}

lemma entryOf_unlinked_ne (h : Wf t) (hfn : t.fn.Lawful)
    (hit : it ∈ t.all) {k : K} (hk : t.fn.keyComparator it.key k ≠ 0) :
    (t.unlinked it).entryOf k = t.entryOf k := by
  have hperm := (all_unlinked_perm h.toShape hit).map Item.unplaced
  have hsearch := find?_sameKey_perm hfn hperm
    ((pairwise_apart_perm hfn hperm).mpr h.distinct) k
  have hne : t.fn.sameKey it.unplaced k = false := by
    rw [← Bool.not_eq_true, t.fn.sameKey_iff]
    exact hk
  rw [List.map_cons, List.find?_cons, hne] at hsearch
  exact hsearch

lemma bucket_dupKey (hfn : t.fn.Lawful) (key : K) :
    t.bucket (t.fn.dupKey key) = t.bucket key := by
  rw [bucket, bucket, hfn.hash_eq _ _ (hfn.dup_key key)]

lemma entryOf_congr (hfn : t.fn.Lawful) {a b : K}
    (hab : t.fn.keyComparator a b = 0) : t.entryOf a = t.entryOf b := by
  rw [entryOf]
  congr 1
  funext it
  rw [Bool.eq_iff_iff, t.fn.sameKey_iff, t.fn.sameKey_iff]
  exact ⟨fun h => hfn.trans _ _ _ h hab, fun h => hfn.trans _ _ _ h (hfn.symm _ _ hab)⟩

lemma wf_added (h : Wf t) (hfn : t.fn.Lawful) (value : Option V)
    (hindex : t.cachedIndex = t.bucket key) (hnew : t.entryOf key = none) :
    Wf (t.added key value) := by
  refine wf_link h hfn (hindex.trans (bucket_dupKey hfn key).symm) ?_ ?_
  · exact (entryOf_congr hfn (hfn.dup_key key)).trans hnew
  · exact shape_added h.toShape key value (hindex ▸ h.bucket_lt key)

def newEntry (t : Zhashx K V) (key : K) (value : Option V) : Item K V :=
  { addr := t.fresh, value := t.fn.dupValue value, index := 0, key := t.fn.dupKey key,
    freeFn := none }

lemma entries_added_perm (h : Shape t) (hfn : t.fn.Lawful)
    (value : Option V) (hindex : t.cachedIndex = t.bucket key) :
    (t.added key value).entries.Perm (t.newEntry key value :: t.entries) :=
  entries_link_perm h (hindex.trans (bucket_dupKey hfn key).symm)

end Zhashx

end Czmq
