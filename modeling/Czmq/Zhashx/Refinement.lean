import Czmq.Zhashx.Growth
import Mathlib.Data.Set.Card

/-! The table as a finite map, a function on the quotient of the key type by the comparator. -/

namespace Czmq

open Machine List Function

variable {K V : Type} {fn : Callbacks K V}

def Callbacks.Lawful.setoid (hfn : fn.Lawful) : Setoid K where
  r a b := fn.keyComparator a b = 0
  iseqv := ⟨hfn.refl, fun {a b} h => hfn.symm a b h, fun {a b c} h h' => hfn.trans a b c h h'⟩

abbrev AbsMap (hfn : fn.Lawful) : Type := Quotient hfn.setoid → Option (Option V)

namespace AbsMap

variable {hfn : fn.Lawful}

def key (hfn : fn.Lawful) (k : K) : Quotient hfn.setoid := Quotient.mk hfn.setoid k

lemma key_eq_iff {a b : K} : key hfn a = key hfn b ↔ fn.keyComparator a b = 0 :=
  Quotient.eq

open Classical in
noncomputable def put (m : AbsMap hfn) (k : K) (v : Option (Option V)) : AbsMap hfn :=
  update m (key hfn k) v

lemma put_key (m : AbsMap hfn) (k k' : K) (v : Option (Option V)) :
    m.put k v (key hfn k') = if fn.keyComparator k k' = 0 then v else m (key hfn k') := by
  classical
  by_cases h : fn.keyComparator k k' = 0
  · rw [if_pos h, put, ← key_eq_iff.mpr h, update_self]
  · rw [if_neg h, put, update_of_ne]
    exact fun he => h (key_eq_iff.mp he.symm)

noncomputable def step (m : AbsMap hfn) : MapOp K V → Result V × AbsMap hfn
  | .insert k v =>
    match m (key hfn k) with
    | none => (.rc 0, m.put k (some (fn.dupValue v)))
    | some _ => (.rc (-1), m)
  | .update k v => (.void, m.put k (some (fn.dupValue v)))
  | .delete k => (.void, m.put k none)
  | .lookup k => (.ptr (m (key hfn k)).join, m)
  | .rename k k' =>
    match m (key hfn k), m (key hfn k') with
    | some v, none => (.rc 0, (m.put k none).put k' (some v))
    | _, _ => (.rc (-1), m)
  | .freefn k _ => (.ptr (m (key hfn k)).join, m)
  | .purge => (.void, fun _ => none)

end AbsMap

namespace Zhashx

structure Represents {hfn : fn.Lawful} (t : Zhashx K V) (m : AbsMap hfn) : Prop where
  wf : Wf t
  fn_eq : t.fn = fn
  bound : ∀ k, m (AbsMap.key hfn k) = (t.entryOf k).map (·.value)

section
variable {hfn : fn.Lawful} {t : Zhashx K V} {m : AbsMap hfn}

lemma represents_new (hfn : fn.Lawful) :
    Represents (new fn : Zhashx K V) (fun _ => none : AbsMap hfn) :=
  ⟨wf_new fn, rfl, fun k => by simp [new, entryOf, entries, all]⟩

lemma Represents.lawful (h : Represents t m) : t.fn.Lawful := h.fn_eq ▸ hfn

variable {k : K}

lemma Represents.looked (h : Represents t m) (hfit : t.LookupFits k) :
    Represents (t.looked k) m where
  wf := wf_looked h.wf h.lawful hfit
  fn_eq := (looked_fn t k).trans h.fn_eq
  bound := fun k' => by rw [entryOf_looked h.wf h.lawful hfit, h.bound]

lemma Represents.loaded (h : Represents t m) (hfit : t.LoadFits) : Represents t.loaded m where
  wf := wf_loaded h.wf h.lawful hfit
  fn_eq := (loaded_fn t).trans h.fn_eq
  bound := fun k' => by rw [entryOf_loaded h.wf h.lawful hfit, h.bound]

lemma Represents.congr {t' : Zhashx K V} (h : Represents t m)
    (hp : t'.primeIndex = t.primeIndex) (hi : t'.items = t.items) (hs : t'.size = t.size)
    (hf : t'.fresh = t.fresh) (hfn' : t'.fn = t.fn) : Represents t' m where
  wf := h.wf.congr hp hi hs hf hfn'
  fn_eq := hfn'.trans h.fn_eq
  bound := fun k => by rw [h.bound, entryOf, entryOf, entries, entries, all, all, hi, hfn']

lemma Represents.find_none (h : Represents t m) (hfind : t.find k = none) :
    m (AbsMap.key hfn k) = none := by
  rw [h.bound, (h.wf.find_eq_none_iff h.lawful k).mp hfind]
  rfl

variable {it : Item K V}

lemma Represents.find_some (h : Represents t m)
    (hfind : t.find k = some it) : m (AbsMap.key hfn k) = some it.value := by
  rw [h.bound, ← h.wf.find_map_unplaced h.lawful, hfind]
  rfl

/-! ## One lemma for each operation -/

lemma Represents.linked (h : Represents t m) (item : Item K V) (fresh : Nat)
    (hk : fn.keyComparator item.key k = 0) (hindex : item.index = t.bucket item.key)
    (hnew : m (AbsMap.key hfn k) = none)
    (hshape : Shape { t.link item with fresh := fresh }) :
    Represents { t.link item with fresh := fresh } (m.put k (some item.value)) := by
  have hfree : t.entryOf item.key = none := by
    rw [← Option.map_eq_none_iff, ← h.bound, AbsMap.key_eq_iff.mpr hk, hnew]
  have hwf := wf_link h.wf h.lawful hindex hfree hshape
  refine ⟨hwf, h.fn_eq, fun k' => ?_⟩
  have hsame : t.fn.sameKey item.unplaced k' = true ↔ fn.keyComparator k k' = 0 := by
    rw [t.fn.sameKey_iff, h.fn_eq]
    exact ⟨fun h' => hfn.trans _ _ _ (hfn.symm _ _ hk) h', fun h' => hfn.trans _ _ _ hk h'⟩
  have hentry : Zhashx.entryOf { t.link item with fresh := fresh } k' = _ := find?_sameKey_perm
    h.lawful (entries_link_perm h.wf.toShape hindex) hwf.distinct k'
  rw [AbsMap.put_key, hentry]
  by_cases hkk : fn.keyComparator k k' = 0
  · rw [if_pos hkk, find?_cons_of_pos]
    exacts [rfl, hsame.mpr hkk]
  · rw [if_neg hkk, find?_cons_of_neg, h.bound]
    exacts [rfl, fun hs => hkk (hsame.mp hs)]

lemma Represents.added (h : Represents t m) (v : Option V)
    (hindex : t.cachedIndex = t.bucket k) (hnew : m (AbsMap.key hfn k) = none) :
    Represents (t.added k v) (m.put k (some (fn.dupValue v))) := by
  have hdup : fn.keyComparator (t.fn.dupKey k) k = 0 := by
    rw [h.fn_eq]
    exact hfn.dup_key k
  have hlinked := h.linked
    { addr := t.fresh, value := t.fn.dupValue v, index := t.cachedIndex, key := t.fn.dupKey k,
      freeFn := none } (t.fresh + 1) hdup (hindex.trans (bucket_dupKey h.lawful k).symm) hnew
    (shape_added h.wf.toShape k v (hindex ▸ h.wf.bucket_lt k))
  have hvalue : fn.dupValue v = t.fn.dupValue v := by rw [h.fn_eq]
  rw [hvalue]
  exact hlinked

lemma entryOf_modifyItem {t : Zhashx K V} (a : Nat) {f : Item K V → Item K V}
    (hkey : ∀ it, (f it).key = it.key) (hplace : ∀ it, (f it).unplaced = f it.unplaced) (k : K) :
    (t.modifyItem a f).entryOf k =
      (t.entryOf k).map fun e => if e.addr == a then f e else e := by
  have hentries : (t.modifyItem a f).entries =
      t.entries.map fun e => if e.addr == a then f e else e := by
    rw [entries, all_modifyItem, entries, map_map, map_map]
    refine map_congr_left fun it _ => ?_
    by_cases ha : it.addr = a <;> simp [ha, hplace]
  have hsame : (fun it => t.fn.sameKey it k) ∘ (fun e : Item K V => if e.addr == a then f e else e) =
      fun it => t.fn.sameKey it k := by
    funext e
    simp only [comp_apply, Callbacks.sameKey]
    split
    · rw [hkey]
    · rfl
  rw [entryOf, hentries, find?_map]
  exact congrArg _ (congrArg (t.entries.find? ·) hsame)

lemma wf_modifyItem {t : Zhashx K V} (h : Wf t) (a : Nat) {f : Item K V → Item K V}
    (hindex : ∀ it, (f it).index = it.index) (haddr : ∀ it, (f it).addr = it.addr)
    (hkey : ∀ it, (f it).key = it.key) : Wf (t.modifyItem a f) where
  toShape := shape_modifyItem h.toShape a hindex haddr
  hashed := by
    intro it hit
    rw [all_modifyItem] at hit
    obtain ⟨x, hx, rfl⟩ := mem_map.mp hit
    have := h.hashed x hx
    split
    · rw [hindex, hkey]
      exact this
    · exact this
  distinct := by
    have hkeep : ∀ it : Item K V, (if it.addr == a then f it else it).unplaced.key = it.key := by
      intro it
      split
      · exact hkey it
      · rfl
    have := h.distinct
    rw [entries, pairwise_map] at this
    rw [entries, all_modifyItem, map_map, pairwise_map]
    refine this.imp fun {x y} hxy => ?_
    change t.fn.keyComparator _ _ ≠ 0
    rw [comp_apply, comp_apply, hkeep, hkeep]
    exact hxy

lemma Represents.addr_eq_iff (h : Represents t m) (hit : it ∈ t.all)
    {e : Item K V} (he : t.entryOf k = some e) :
    e.addr = it.addr ↔ fn.keyComparator it.key k = 0 := by
  have hek : fn.keyComparator e.key k = 0 := by
    have := find?_some he
    rwa [t.fn.sameKey_iff, h.fn_eq] at this
  obtain ⟨x, hx, rfl⟩ := exists_mem_all_of_mem_entries (mem_of_find?_eq_some he)
  constructor
  · intro haddr
    have : x = it := inj_on_of_nodup_map h.wf.addr_nodup hx hit haddr
    exact this ▸ hek
  · intro hk
    by_contra hne
    have hxe : x.unplaced ≠ it.unplaced := fun heq => hne (unplaced_addr_eq heq)
    have : Std.Symm (Apart t.fn) := ⟨fun _ _ hab => apart_symm h.lawful hab⟩
    have hapart := h.wf.distinct.forall (mem_entries_of_mem_all hx) (mem_entries_of_mem_all hit) hxe
    refine hapart ?_
    rw [h.fn_eq]
    exact hfn.trans _ _ _ hek (hfn.symm _ _ hk)

lemma Represents.overwrite (h : Represents t m) (v : Option V)
    (hit : it ∈ t.all) (hk : fn.keyComparator it.key k = 0) :
    Represents (t.overwrite it.addr v) (m.put k (some (fn.dupValue v))) := by
  have hwf : Wf (t.modifyItem it.addr fun x => { x with value := t.fn.dupValue v }) :=
    wf_modifyItem h.wf _ (fun _ => rfl) (fun _ => rfl) fun _ => rfl
  refine ⟨hwf.congr rfl rfl rfl rfl rfl, h.fn_eq, fun k' => ?_⟩
  have hentry : (t.overwrite it.addr v).entryOf k' = _ :=
    entryOf_modifyItem (t := t) it.addr (f := fun x => { x with value := t.fn.dupValue v })
      (fun _ => rfl) (fun _ => rfl) k'
  rw [hentry, AbsMap.put_key]
  by_cases hkk : fn.keyComparator k k' = 0
  · rw [if_pos hkk]
    have hitk : fn.keyComparator it.key k' = 0 := hfn.trans _ _ _ hk hkk
    cases he : t.entryOf k' with
    | none =>
      have := entryOf_eq_none_iff.mp he _ (mem_entries_of_mem_all hit)
      rw [h.fn_eq] at this
      exact absurd hitk this
    | some e =>
      have haddr := (h.addr_eq_iff hit he).mpr hitk
      simp [haddr, h.fn_eq]
  · rw [if_neg hkk, h.bound]
    cases he : t.entryOf k' with
    | none => rfl
    | some e =>
      have hne : e.addr ≠ it.addr := fun haddr =>
        hkk (hfn.trans _ _ _ (hfn.symm _ _ hk) ((h.addr_eq_iff hit he).mp haddr))
      simp [hne]

lemma Represents.setFreeFn (h : Represents t m) (a : Nat) (f : Option Nat) :
    Represents (t.modifyItem a fun x => { x with freeFn := f }) m := by
  refine ⟨wf_modifyItem h.wf _ (fun _ => rfl) (fun _ => rfl) fun _ => rfl, h.fn_eq, fun k => ?_⟩
  rw [entryOf_modifyItem a (f := fun x => { x with freeFn := f })
    (fun _ => rfl) (fun _ => rfl) k, h.bound, Option.map_map]
  congr 1
  funext e
  simp only [comp_apply]
  split <;> rfl

lemma Represents.unlinked (h : Represents t m) (hit : it ∈ t.all)
    (hk : fn.keyComparator it.key k = 0) : Represents (t.unlinked it) (m.put k none) := by
  have hperm := all_unlinked_perm h.wf.toShape hit
  have hapart := (pairwise_apart_perm h.lawful (hperm.map Item.unplaced)).mpr h.wf.distinct
  have hwf : Wf (t.unlinked it) := ⟨shape_unlinked h.wf.toShape hit,
    fun x hx => h.wf.hashed x (hperm.mem_iff.mp (mem_cons_of_mem _ hx)), (pairwise_cons.mp hapart).2⟩
  refine ⟨hwf, h.fn_eq, fun k' => ?_⟩
  rw [AbsMap.put_key]
  by_cases hkk : fn.keyComparator k k' = 0
  · have hsame : (t.unlinked it).fn.keyComparator it.key k' = 0 := by
      change t.fn.keyComparator it.key k' = 0
      rw [h.fn_eq]
      exact hfn.trans _ _ _ hk hkk
    rw [if_pos hkk, ← entryOf_congr (t := t.unlinked it) h.lawful hsame, eq_comm,
      Option.map_eq_none_iff, entryOf_eq_none_iff]
    exact fun e he hsame => (pairwise_cons.mp hapart).1 e he (h.lawful.symm _ _ hsame)
  · rw [if_neg hkk, h.bound, entryOf_unlinked_ne h.wf h.lawful hit]
    rw [h.fn_eq]
    exact fun hc => hkk (hfn.trans _ _ _ (hfn.symm _ _ hk) hc)

lemma Represents.renamed (h : Represents t m) (hit : it ∈ t.all) {k' : K}
    (hk : fn.keyComparator it.key k = 0) (hindex : t.cachedIndex = t.bucket k')
    (hnew : m (AbsMap.key hfn k') = none) :
    Represents (t.renamed it k') ((m.put k none).put k' (some it.value)) := by
  have hun : Represents { t.unlinked it with calls := t.fn.disposeKey it ++ t.calls }
      (m.put k none) := (h.unlinked hit hk).congr rfl rfl rfl rfl rfl
  have hdup : fn.keyComparator (t.fn.dupKey k') k' = 0 := by
    rw [h.fn_eq]
    exact hfn.dup_key k'
  have hfree : m.put k none (AbsMap.key hfn k') = none := by
    rw [AbsMap.put_key, hnew, ite_self]
  exact hun.linked { it with key := t.fn.dupKey k', index := t.cachedIndex } t.fresh hdup (hindex.trans (bucket_dupKey h.lawful k').symm) hfree
    (shape_renamed h.wf.toShape hit k' (hindex ▸ h.wf.bucket_lt k'))

lemma Represents.purged (h : Represents t m) {t' : Zhashx K V} (hshape : Shape t')
    (hall : t'.all = []) (hfn' : t'.fn = t.fn) :
    Represents t' (fun _ => none : AbsMap hfn) := by
  have hentries : t'.entries = [] := by rw [entries, hall, map_nil]
  refine ⟨⟨hshape, ?_, ?_⟩, hfn'.trans h.fn_eq, fun k => ?_⟩
  · rw [hall]
    exact fun it hit => absurd hit not_mem_nil
  · rw [hentries]
    exact Pairwise.nil
  · rw [entryOf, hentries]
    rfl

lemma Represents.exists_mem_looked (h : Represents t m) (hfit : t.LookupFits k)
    (hfind : t.find k = some it) :
    ∃ it' ∈ (t.looked k).all, it'.unplaced = it.unplaced ∧
      fn.keyComparator it'.key k = 0 ∧ m (AbsMap.key hfn k) = some it'.value := by
  obtain ⟨it', hit', he⟩ := Zhashx.exists_mem_looked hfit (find_mem_all hfind)
  refine ⟨it', hit', he, ?_, ?_⟩
  · rw [unplaced_key_eq he]
    have hsame := find?_some hfind
    rwa [t.fn.sameKey_iff, h.fn_eq] at hsame
  · rw [unplaced_value_eq he]
    exact h.find_some hfind

/-! ## Runs -/

/-- `zhashx_purge` gets through the buckets: its counter can reach their number. -/
def PurgeEnds (t : Zhashx K V) : MapOp K V → Prop
  | .purge => t.limit < 2 ^ 32
  | _ => True

lemma Represents.insert (h : Represents t m) (v : Option V) (hfit : t.InsertFits k) :
    ∃ t', t.mapStep (.insert k v) = .ok ((m.step (.insert k v)).1, t') ∧
      Represents t' (m.step (.insert k v)).2 := by
  have hloaded := h.loaded hfit.1
  have hlooked := hloaded.looked hfit.2
  rw [mapStep, insert_of_fits v hfit, AbsMap.step]
  cases hfind : t.loaded.find k with
  | none =>
    rw [hloaded.find_none hfind]
    exact ⟨_, rfl, hlooked.added v (looked_cachedIndex _ _) (hloaded.find_none hfind)⟩
  | some it =>
    rw [hloaded.find_some hfind]
    exact ⟨_, rfl, hlooked⟩

lemma Represents.update (h : Represents t m) (v : Option V) (hfit : t.MapFits (.update k v)) :
    ∃ t', t.update k v = .ok t' ∧ Represents t' (m.put k (some (fn.dupValue v))) := by
  have hlooked := h.looked hfit.1
  cases hfind : t.find k with
  | none =>
    have hins := hfit.2 hfind
    have hloaded := hlooked.loaded hins.1
    have hnew := h.find_none hfind
    have hfind' : (t.looked k).loaded.find k = none := by
      rw [hloaded.wf.find_eq_none_iff hloaded.lawful, ← Option.map_eq_none_iff, ← hloaded.bound,
        hnew]
    refine ⟨((t.looked k).loaded.looked k).added k v, ?_, ?_⟩
    · rw [update_of_find_none v hfit.1 hfind, insert_of_fits v hins, hfind']
      rfl
    · exact (hloaded.looked hins.2).added v (looked_cachedIndex _ _) hnew
  | some it =>
    obtain ⟨it', hit', he, hk, _⟩ := h.exists_mem_looked hfit.1 hfind
    refine ⟨_, update_of_find_some v hfit.1 hfind, ?_⟩
    rw [← unplaced_addr_eq he]
    exact hlooked.overwrite v hit' hk

lemma Represents.delete (h : Represents t m) (hfit : t.LookupFits k) :
    ∃ t', t.delete k = .ok t' ∧ Represents t' (m.put k none) := by
  have hlooked := h.looked hfit
  cases hfind : t.find k with
  | none =>
    refine ⟨_, delete_of_find_none hfit hfind, ?_⟩
    classical
    rw [AbsMap.put, ← h.find_none hfind, update_eq_self]
    exact hlooked
  | some it =>
    obtain ⟨it', hit', he, hk, _⟩ := h.exists_mem_looked hfit hfind
    exact ⟨_, delete_of_find_some h.wf.toShape hfit hfind hit' he,
      (hlooked.unlinked hit' hk).congr rfl rfl rfl rfl rfl⟩

lemma Represents.lookup (h : Represents t m) (hfit : t.LookupFits k) :
    ∃ t', t.lookup k = .ok ((m (AbsMap.key hfn k)).join, t') ∧ Represents t' m := by
  have hlooked := h.looked hfit
  cases hfind : t.find k with
  | none =>
    rw [h.find_none hfind]
    exact ⟨_, lookup_of_find_none hfit hfind, hlooked⟩
  | some it =>
    obtain ⟨it', hit', he, _, hbound⟩ := h.exists_mem_looked hfit hfind
    rw [hbound]
    exact ⟨_, lookup_of_find_some h.wf.toShape hfit hfind hit' he,
      hlooked.congr rfl rfl rfl rfl rfl⟩

lemma Represents.freefn (h : Represents t m) (f : Option Nat) (hfit : t.LookupFits k) :
    ∃ t', t.freefn k f = .ok ((m (AbsMap.key hfn k)).join, t') ∧ Represents t' m := by
  have hlooked := h.looked hfit
  cases hfind : t.find k with
  | none =>
    rw [h.find_none hfind]
    exact ⟨_, freefn_of_find_none f hfit hfind, hlooked⟩
  | some it =>
    obtain ⟨it', hit', he, _, hbound⟩ := h.exists_mem_looked hfit hfind
    rw [hbound]
    exact ⟨_, freefn_of_find_some h.wf.toShape f hfit hfind hit' he, hlooked.setFreeFn it.addr f⟩

lemma Represents.rename (h : Represents t m) {k' : K} (hfit : t.MapFits (.rename k k')) :
    ∃ t', t.mapStep (.rename k k') = .ok ((m.step (.rename k k')).1, t') ∧
      Represents t' (m.step (.rename k k')).2 := by
  have hlooked := h.looked hfit.1
  have hlooked' := hlooked.looked hfit.2
  rw [mapStep, AbsMap.step]
  cases hfind : t.find k with
  | none =>
    rw [h.find_none hfind, rename_of_not hfit.1 hfit.2 (.inl hfind)]
    exact ⟨_, rfl, hlooked'⟩
  | some it =>
    obtain ⟨x, hx, hxe, hxk, hbound⟩ := h.exists_mem_looked hfit.1 hfind
    rw [hbound]
    cases hfree : (t.looked k).find k' with
    | some y =>
      rw [hlooked.find_some hfree, rename_of_not hfit.1 hfit.2 (.inr (by rw [hfree]; rfl))]
      exact ⟨_, rfl, hlooked'⟩
    | none =>
      rw [hlooked.find_none hfree]
      obtain ⟨it', hit', he⟩ := Zhashx.exists_mem_looked hfit.2 hx
      rw [rename_of_find_some h.wf.toShape hfit.1 hfit.2 hfind hfree hit' (he.trans hxe),
        ← unplaced_value_eq he]
      refine ⟨_, rfl, hlooked'.renamed hit' ?_ (looked_cachedIndex _ _) (hlooked.find_none hfree)⟩
      rw [unplaced_key_eq he]
      exact hxk

lemma Represents.mapStep (h : Represents t m) (op : MapOp K V) (hfit : t.MapFits op)
    (hpurge : t.PurgeEnds op) :
    ∃ t', t.mapStep op = .ok ((m.step op).1, t') ∧ Represents t' (m.step op).2 := by
  cases op with
  | insert k v => exact h.insert v hfit
  | update k v =>
    obtain ⟨t', he, hr⟩ := h.update v hfit
    exact ⟨t', by rw [Zhashx.mapStep, he]; rfl, hr⟩
  | delete k =>
    obtain ⟨t', he, hr⟩ := h.delete hfit
    exact ⟨t', by rw [Zhashx.mapStep, he]; rfl, hr⟩
  | lookup k =>
    obtain ⟨t', he, hr⟩ := h.lookup hfit
    exact ⟨t', by rw [Zhashx.mapStep, he]; rfl, hr⟩
  | rename k k' => exact h.rename hfit
  | freefn k f =>
    obtain ⟨t', he, hr⟩ := h.freefn f hfit
    exact ⟨t', by rw [Zhashx.mapStep, he]; rfl, hr⟩
  | purge =>
    obtain ⟨t', he, hs, hall, hfn'⟩ := purge_of_lt h.wf.toShape hpurge
    exact ⟨t', by rw [Zhashx.mapStep, he]; rfl, h.purged hs hall hfn'⟩

lemma Represents.ncard_eq (h : Represents t m) : {q | m q ≠ none}.ncard = t.size := by
  classical
  have hnodup : (t.entries.map fun e => AbsMap.key hfn e.key).Nodup := by
    rw [Nodup, pairwise_map]
    refine h.wf.distinct.imp fun {a b} hab he => hab ?_
    rw [h.fn_eq]
    exact AbsMap.key_eq_iff.mp he
  have hset : {q | m q ≠ none} = ((t.entries.map fun e => AbsMap.key hfn e.key).toFinset : Set _) := by
    ext q
    induction q using Quotient.inductionOn with
    | h k =>
      change m (AbsMap.key hfn k) ≠ none ↔ AbsMap.key hfn k ∈ _
      rw [h.bound, Ne, Option.map_eq_none_iff, entryOf_eq_none_iff, Finset.mem_coe,
        mem_toFinset, mem_map, h.fn_eq]
      simp only [not_forall, not_not, exists_prop, AbsMap.key_eq_iff]
  rw [hset, Set.ncard_coe_finset, toFinset_card_of_nodup hnodup, length_map,
    length_entries, h.wf.size_eq]

end

/-- In a run whose growth steps stay inside the primes table and whose purges get through, the
answers are those of the map, and every table is well formed, binds what the map binds and counts
the keys. -/
theorem run_refines_map (hfn : fn.Lawful) (ops : List (MapOp K V))
    (hmeet : StepsMeet mapStep (fun t op => t.MapFits op ∧ t.PurgeEnds op) (new fn) ops) :
    ∀ pre post, ops = pre ++ post → ∃ t,
      run mapStep (new fn) pre =
        .ok ((runAbs AbsMap.step (fun _ => none : AbsMap hfn) pre).1, t) ∧
      Wf t ∧ Represents t (runAbs AbsMap.step (fun _ => none : AbsMap hfn) pre).2 ∧
      {q | (runAbs AbsMap.step (fun _ => none : AbsMap hfn) pre).2 q ≠ none}.ncard =
        t.size := by
  intro pre post hops
  rw [hops] at hmeet
  obtain ⟨t, hrun, hr⟩ := run_refines AbsMap.step
    (fun t m op h hP => h.mapStep op hP.1 hP.2) (represents_new hfn) hmeet.left
  exact ⟨t, hrun, hr.wf, hr, hr.ncard_eq⟩

lemma collided_run [DecidableEq K] {key : Nat → K} (hkey : key.Injective) (value : Nat → Option V)
    {n : Nat} (hn : n ≤ 61) :
    StepsMeet mapStep (fun t op => t.MapFits op ∧ t.PurgeEnds op) (new colliding)
        ((range n).map fun i => .insert (key i) (value i)) ∧
      ∃ rs t, run mapStep (new colliding)
          ((range n).map fun i => .insert (key i) (value i)) = .ok (rs, t) ∧
        Collided key n t := by
  refine run_map_range mapStep (Collided key) _ (fun i hi t ht => ?_) (collided_new key)
  obtain ⟨t', he, ht'⟩ := ht.insert hkey (by omega) (value i)
  exact ⟨⟨ht.insertFits hkey (by omega), trivial⟩, .rc 0, t', by rw [mapStep, he]; rfl, ht'⟩

def collidingInserts (n : Nat) : List (MapOp (List UInt8) Nat) :=
  (range n).map fun i => .insert (replicate (i + 1) 97) (some i)

theorem run_refines_map_three_keys :
    ∃ t, run mapStep (new colliding) (collidingInserts 3 ++ [.purge]) =
        .ok ((runAbs AbsMap.step (fun _ => none : AbsMap colliding_lawful)
          (collidingInserts 3 ++ [.purge])).1, t) ∧ Wf t := by
  obtain ⟨hmeet, rs, t, hrun, ht⟩ := collided_run (replicate_succ_injective 97) some
    (n := 3) (by omega)
  have hpurge : t.MapFits .purge ∧ t.PurgeEnds .purge := by
    rw [PurgeEnds, limit, ht.prime_eq]
    exact ⟨trivial, by decide⟩
  obtain ⟨t', hrun', hwf, _⟩ := run_refines_map colliding_lawful (collidingInserts 3 ++ [.purge])
    (hmeet.append hrun (.cons hpurge fun _ _ _ => stepsMeet_nil _))
    _ [] (append_nil _).symm
  exact ⟨t', hrun', hwf⟩

/-- Thirty-one keys with one hash grow the table, inside the primes table, to more buckets than a
`uint` can count: the purge never returns. -/
theorem purge_endless :
    (colliding : Callbacks (List UInt8) Nat).Lawful ∧
      StepsMeet mapStep MapFits (new colliding) (collidingInserts 31 ++ [.purge]) ∧
      run mapStep (new colliding) (collidingInserts 31 ++ [.purge]) =
        .error .endlessLoop := by
  obtain ⟨hmeet, rs, t, hrun, ht⟩ := collided_run (replicate_succ_injective 97) some
    (n := 31) (by omega)
  have hlimit : 2 ^ 32 ≤ t.limit := by
    rw [limit, ht.prime_eq]
    decide +kernel
  have hstep : t.mapStep .purge = .error .endlessLoop := by
    rw [mapStep, purge, sPurge_of_ge ht.wf.toShape hlimit]
    rfl
  refine ⟨colliding_lawful, (hmeet.imp fun _ _ h => h.1).append hrun
    (.cons trivial fun _ _ _ => stepsMeet_nil _), ?_⟩
  rw [collidingInserts, run_append_ok hrun, run_cons_error hstep]
  rfl

end Zhashx

end Czmq
