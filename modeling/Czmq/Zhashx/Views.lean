import Czmq.Zhashx.Inserts
import Czmq.Zhashx.Iteration
import Czmq.Zhashx.Reached
import Czmq.Zlistx.Refinement

/-! Iteration, the lists of keys and of values, and the copy. All but the iterator count the buckets
in a `uint`. -/

namespace Czmq

open List Machine Zlistx

variable {K V : Type}

/-- Where `zlistx_new` and `zlistx_add_end` get memory, node `i` for item `i`, and the default
comparator. -/
structure ListSite (I : Type) where
  memory : Heap I
  head : Nat
  node : Nat → Nat
  comparator : Option I → Option I → Int

structure ListSite.Fresh {I : Type} (site : ListSite I) : Prop where
  injective : Function.Injective site.node
  ne_head : ∀ i, site.node i ≠ site.head

namespace Zhashx

/-- One round of the loop of `zhashx_keys` or `zhashx_values`. -/
def addItem {I : Type} (site : ListSite I) (item : Item K V → Option I) (list : Zlistx I)
    (it : Item K V) : Except Fault (Zlistx I) := do
  let (_, list) ← list.addEnd (site.node list.size) (item it)
  pure list

/-- The loop of `zhashx_keys` and `zhashx_values`. `zlistx_add_end` always returns a handle, so it
never gives up. -/
def listOf {I : Type} (t : Zhashx K V) (site : ListSite I) (fn : ListCallbacks I)
    (item : Item K V → Option I) : Except Fault (Zlistx I) :=
  Loop.forUint t.limit .endlessLoop
    (fun list index => (t.items.getD index []).foldlM (addItem site item) list)
    (Zlistx.new site.memory site.head fn)

def keyCallbacks (t : Zhashx K V) (site : ListSite K) : ListCallbacks K where
  duplicator := t.fn.keyDuplicator.map Option.map
  destructor := t.fn.keyDestructor
  comparator := site.comparator

def valueCallbacks (t : Zhashx K V) (site : ListSite V) : ListCallbacks V where
  duplicator := t.fn.duplicator
  destructor := t.fn.destructor
  comparator := site.comparator

def keys (t : Zhashx K V) (site : ListSite K) : Except Fault (Zlistx K) :=
  t.listOf site (t.keyCallbacks site) fun it => some it.key

def values (t : Zhashx K V) (site : ListSite V) : Except Fault (Zlistx V) :=
  t.listOf site (t.valueCallbacks site) (·.value)

/-- The loop of `zhashx_dup` over a chain. A failed insertion destroys the copy and leaves this loop
only: the next item goes into `NULL`. -/
def copyChain : List (Item K V) → Option (Zhashx K V) → Except Fault (Option (Zhashx K V))
  | [], copy => .ok copy
  | _ :: _, none => .error .assertion
  | item :: next, some copy => do
    let (rc, copy) ← copy.insert item.key item.value
    if rc ≠ 0 then do
      let _ ← copy.sPurge
      pure none
    else copyChain next (some copy)

def dup (t : Zhashx K V) : Except Fault (Option (Zhashx K V)) :=
  Loop.forUint t.limit .endlessLoop (fun copy index => copyChain (t.items.getD index []) copy)
    (some (new t.fn))

/-! ## Lists -/

section
variable {I : Type} {site : ListSite I} {fn : ListCallbacks I} {list : Zlistx I} {a : CursorList I}

/-- A list filled from the site: entry `i` is in node `i`. -/
structure Filled (site : ListSite I) (fn : ListCallbacks I) (list : Zlistx I) (a : CursorList I) :
    Prop where
  refines : Refines fn list a
  head_eq : list.head = site.head
  nodes : handles a.entries = (range a.entries.length).map site.node

lemma Filled.tag_eq_false (h : Filled site fn list a) (hsite : site.Fresh) :
    list.tag (site.node list.size) = false := by
  rw [Bool.eq_false_iff, Ne, h.refines.holds.live, h.nodes, h.head_eq, mem_cons, not_or,
    h.refines.size_eq]
  refine ⟨hsite.ne_head _, fun hmem => ?_⟩
  obtain ⟨i, hi, he⟩ := mem_map.mp hmem
  rw [hsite.injective he] at hi
  exact not_mem_range_self hi

lemma Filled.addEnd (h : Filled site fn list a) (hsite : site.Fresh) {item : Option I}
    (hitem : item.isSome) (hdup : fn.CanDup item) :
    ∃ list' a', list.addEnd (site.node list.size) item = .ok (site.node list.size, list') ∧
      Filled site fn list' a' ∧ a'.entries.map Prod.snd = a.entries.map Prod.snd ++ [fn.dup item] := by
  have hvalid : list.Valid (.addEnd (site.node list.size) item) :=
    ⟨h.tag_eq_false hsite, hitem, h.refines.fn_eq ▸ hdup⟩
  obtain ⟨list', hadd, hr⟩ := h.refines.addEnd hvalid
  refine ⟨list', _, hadd, ⟨hr, (tag_of_addEnd hadd).2.trans h.head_eq, ?_⟩, ?_⟩
  · change handles (a.entries ++ [_]) = (range (a.entries ++ [_]).length).map _
    rw [handles_append, h.nodes, length_append, length_singleton,
      range_succ, map_append, h.refines.size_eq]
    rfl
  · exact map_append

lemma Filled.foldlM_addEnd (h : Filled site fn list a) (hsite : site.Fresh)
    {item : Item K V → Option I} {items : List (Item K V)}
    (hitems : ∀ it ∈ items, (item it).isSome ∧ fn.CanDup (item it)) :
    ∃ list' a', items.foldlM (addItem site item) list = .ok list' ∧ Filled site fn list' a' ∧
      a'.entries.map Prod.snd = a.entries.map Prod.snd ++ items.map fun it => fn.dup (item it) := by
  induction items generalizing list a with
  | nil => exact ⟨list, a, rfl, h, by rw [map_nil, append_nil]⟩
  | cons it items ih =>
    rw [forall_mem_cons] at hitems
    obtain ⟨list1, a1, hadd, h1, ha1⟩ := h.addEnd hsite hitems.1.1 hitems.1.2
    obtain ⟨list', a', hfold, h', ha'⟩ := ih h1 hitems.2
    refine ⟨list', a', ?_, h', ?_⟩
    · rw [foldlM_cons, addItem, hadd]
      exact hfold
    · rw [ha', ha1, map_cons, append_assoc, singleton_append]

end

section
variable {I : Type} {t : Zhashx K V} {site : ListSite I} (fn : ListCallbacks I)
  (item : Item K V → Option I)

lemma listOf_of_lt (h : Shape t) (hlim : t.limit < 2 ^ 32) (hsite : site.Fresh)
    (hitems : ∀ it ∈ t.all, (item it).isSome ∧ fn.CanDup (item it)) :
    ∃ list a, t.listOf site fn item = .ok list ∧ Refines fn list a ∧
      a.entries.map Prod.snd = t.all.map fun it => fn.dup (item it) := by
  have hnew : Filled site fn (Zlistx.new site.memory site.head fn) .empty :=
    ⟨refines_new _ _ _, rfl, rfl⟩
  obtain ⟨list, a, hfold, hfilled, ha⟩ := hnew.foldlM_addEnd hsite hitems
  refine ⟨list, a, ?_, hfilled.refines, ha⟩
  rw [listOf, h.forUint_items hlim, hfold]

lemma listOf_of_ge (hlim : 2 ^ 32 ≤ t.limit) (hsite : site.Fresh)
    (hitems : ∀ it ∈ t.all, (item it).isSome ∧ fn.CanDup (item it)) :
    t.listOf site fn item = .error .endlessLoop := by
  refine Loop.forUint_endless Fault.endlessLoop (fun list => ∃ a, Filled site fn list a) ?_
    ⟨.empty, refines_new _ _ _, rfl, rfl⟩ hlim
  rintro list index ⟨a, ha⟩
  obtain ⟨list', a', hfold, ha', -⟩ := ha.foldlM_addEnd hsite fun it hit =>
    hitems it (Buckets.mem_flatten_of_mem_getD hit)
  exact ⟨list', hfold, a', ha'⟩

end

section
variable {t t' : Zhashx K V} {items : List (Item K V)}

lemma foldlM_copyChain_none_ne (chains : List (List (Item K V))) :
    chains.foldlM (fun copy chain => copyChain chain copy) none ≠ .ok (some t') := by
  induction chains with
  | nil => exact fun h => by cases h
  | cons chain chains ih =>
    intro h
    rw [foldlM_cons, bind_eq_ok] at h
    obtain ⟨copy, hchain, h⟩ := h
    cases copy with
    | none => exact ih h
    | some copy => cases chain <;> cases hchain

lemma copyChain_eq_some_iff :
    copyChain items (some t) = .ok (some t') ↔
      InsertsTo t (items.map fun it => (it.key, it.value)) t' := by
  induction items generalizing t with
  | nil =>
    rw [copyChain, map_nil, InsertsTo, Except.ok.injEq, Option.some.injEq, eq_comm]
  | cons it items ih =>
    rw [copyChain, bind_eq_ok]
    constructor
    · rintro ⟨⟨rc, t1⟩, hins, h⟩
      dsimp only at h
      split at h
      · obtain ⟨_, _, h⟩ := bind_eq_ok.mp h
        cases h
      · next hrc =>
        rw [not_not] at hrc
        exact ⟨t1, hrc ▸ hins, ih.mp h⟩
    · rintro ⟨t1, hins, hto⟩
      exact ⟨(0, t1), hins, ih.mpr hto⟩

lemma foldlM_copyChain_eq_some_iff (chains : List (List (Item K V))) :
    chains.foldlM (fun copy chain => copyChain chain copy) (some t) = .ok (some t') ↔
      InsertsTo t (chains.flatten.map fun it => (it.key, it.value)) t' := by
  induction chains generalizing t with
  | nil =>
    exact ⟨fun h => by cases h; rfl, fun h => by rw [h]; rfl⟩
  | cons chain chains ih =>
    rw [foldlM_cons, flatten_cons, map_append, insertsTo_append, bind_eq_ok]
    constructor
    · rintro ⟨copy, hchain, h⟩
      cases copy with
      | none => exact absurd h (foldlM_copyChain_none_ne chains)
      | some t1 => exact ⟨t1, copyChain_eq_some_iff.mp hchain, ih.mp h⟩
    · rintro ⟨t1, hchain, h⟩
      exact ⟨some t1, copyChain_eq_some_iff.mpr hchain, ih.mpr h⟩

lemma dup_eq_some_iff (h : Shape t) (hlim : t.limit < 2 ^ 32) :
    t.dup = .ok (some t') ↔ InsertsTo (new t.fn) t.pairs t' := by
  rw [dup, h.forUint_chains hlim copyChain, foldlM_copyChain_eq_some_iff]
  rfl

end

/-! ## All views -/

/-- Iteration, lists and copy have the items of the table in the order of the buckets, and the copy
the same pairs; lists and copies hold what the duplicators make. -/
structure ViewsAgree (t : Zhashx K V) (siteKeys : ListSite K) (siteValues : ListSite V) : Prop where
  visited : t.visit = .ok (t.all.map fun it => (it.value, some it.key))
  keys : ∃ list a, t.keys siteKeys = .ok list ∧ Refines (t.keyCallbacks siteKeys) list a ∧
    a.entries.map Prod.snd = t.all.map fun it => some (t.fn.dupKey it.key)
  values : ∃ list a, t.values siteValues = .ok list ∧
    Refines (t.valueCallbacks siteValues) list a ∧
    a.entries.map Prod.snd = t.all.map fun it => t.fn.dupValue it.value
  dup : ∃ copy, t.dup = .ok (some copy) ∧ Wf copy ∧ copy.fn = t.fn ∧
    copy.pairs.Perm (t.pairs.map fun p => (t.fn.dupKey p.1, t.fn.dupValue p.2))

section
variable {t : Zhashx K V} {siteKeys : ListSite K} {siteValues : ListSite V}

lemma keyCallbacks_dup (k : K) :
    (t.keyCallbacks siteKeys).dup (some k) = some (t.fn.dupKey k) := by
  rw [Callbacks.dupKey, keyCallbacks]
  cases t.fn.keyDuplicator <;> rfl

lemma valueCallbacks_dup (v : Option V) :
    (t.valueCallbacks siteValues).dup v = t.fn.dupValue v := by
  rw [Callbacks.dupValue, valueCallbacks]
  cases t.fn.duplicator <;> rfl

lemma canDup_key (it : Item K V) :
    (some it.key).isSome ∧ (t.keyCallbacks siteKeys).CanDup (some it.key) :=
  ⟨rfl, fun _ => by rw [keyCallbacks_dup]; rfl⟩

lemma Wf.viewsAgree_iff (h : Wf t) (hfn : t.fn.Lawful)
    (hvalues : ∀ it ∈ t.all, it.value.isSome ∧ (t.fn.dupValue it.value).isSome)
    (hkeys : siteKeys.Fresh) (hsite : siteValues.Fresh) :
    ViewsAgree t siteKeys siteValues ↔ t.limit < 2 ^ 32 ∧
      StepsMeet Zhashx.mapStep MapFits (new t.fn) (inserts t.pairs) := by
  constructor
  · intro hviews
    have hlim : t.limit < 2 ^ 32 := by
      by_contra hge
      obtain ⟨list, a, he, -⟩ := hviews.keys
      rw [keys, listOf_of_ge _ _ (not_lt.mp hge) hkeys fun it _ => canDup_key it] at he
      cases he
    obtain ⟨copy, hcopy, -⟩ := hviews.dup
    exact ⟨hlim, ((dup_eq_some_iff h.toShape hlim).mp hcopy).stepsMeet (shape_new t.fn)⟩
  · rintro ⟨hlim, hfit⟩
    obtain ⟨list, a, he, hr, ha⟩ := listOf_of_lt (t.keyCallbacks siteKeys)
      (fun it => some it.key) h.toShape hlim hkeys fun it _ => canDup_key it
    simp only [keyCallbacks_dup] at ha
    obtain ⟨list', a', he', hr', ha'⟩ := listOf_of_lt (t.valueCallbacks siteValues)
      (fun it => it.value) h.toShape hlim hsite fun it hit =>
        ⟨(hvalues it hit).1, fun _ => by rw [valueCallbacks_dup]; exact (hvalues it hit).2⟩
    simp only [valueCallbacks_dup] at ha'
    have hnew : ∀ p ∈ t.pairs, Unbound t.fn p.1 (new t.fn).pairs := fun _ _ _ hq =>
      absurd hq not_mem_nil
    obtain ⟨copy, hto, hcopy⟩ := (wf_new t.fn).insertsTo hfn h.pairwise_pairs hnew hfit
    have hvisit : t.visit = _ := visitFrom_of_ahead h.size_eq.ge (h.toShape.congr rfl rfl rfl rfl)
      (ahead_bucket h.toShape h.limit_pos) fun it hit => (hvalues it hit).1
    exact ⟨hvisit, ⟨list, a, he, hr, ha⟩,
      ⟨list', a', he', hr', ha'⟩, copy, (dup_eq_some_iff h.toShape hlim).mpr hto, hcopy⟩

end

/-- In a table reached with lawful callbacks the views agree exactly when it has fewer than `2 ^ 32`
buckets and the insertions of the copy stay inside the primes table. -/
theorem reached_viewsAgree_iff {fn : Callbacks K V} (hfn : fn.Lawful) {ops : List (TableOp K V)}
    (hops : StepsMeet step Steady (new fn) ops) {rs : List (Result V)} {t : Zhashx K V}
    (hrun : run step (new fn) ops = .ok (rs, t))
    (hvalues : ∀ it ∈ t.all, it.value.isSome ∧ (t.fn.dupValue it.value).isSome)
    {siteKeys : ListSite K} {siteValues : ListSite V} (hkeys : siteKeys.Fresh)
    (hsite : siteValues.Fresh) :
    ViewsAgree t siteKeys siteValues ↔ t.limit < 2 ^ 32 ∧
      StepsMeet mapStep MapFits (new t.fn) (inserts t.pairs) := by
  have hreached := reached_of_run hfn hops hrun
  exact hreached.wf.viewsAgree_iff hreached.lawful hvalues hkeys hsite

def row {I : Type} : ListSite I where
  memory := ⟨fun _ => 0, fun _ => 0, fun _ => none, fun _ => false⟩
  head := 0
  node := fun i => i + 1
  comparator := fun _ _ => 0

lemma row_fresh {I : Type} : (row : ListSite I).Fresh :=
  ⟨fun _ _ h => Nat.succ.inj h, fun i => Nat.succ_ne_zero i⟩

theorem reached_viewsAgree_two_keys :
    ∃ rs t, run step (new (colliding : Callbacks (List UInt8) Nat))
        [.map (.insert [97] (some 1)), .map (.insert [98] (some 2))] = .ok (rs, t) ∧
      ViewsAgree t row row := by
  have hops : StepsMeet step Steady (new (colliding : Callbacks (List UInt8) Nat))
      [.map (.insert [97] (some 1)), .map (.insert [98] (some 2))] :=
    .cons trivial fun _ _ _ => .cons trivial fun _ _ _ => stepsMeet_nil _
  refine ⟨_, _, rfl, ?_⟩
  rw [reached_viewsAgree_iff colliding_lawful hops rfl (by decide) row_fresh row_fresh]
  exact ⟨by decide, InsertsTo.stepsMeet (shape_new _) ⟨_, rfl, _, rfl, rfl⟩⟩

/-- Thirty-one keys with one hash make more buckets than a `uint` can count: `zhashx_keys` never
ends. -/
theorem keys_endless :
    ∃ rs t, run step (new (colliding : Callbacks (List UInt8) Nat))
        ((range 31).map fun i => .map (.insert (replicate (i + 1) 97) (some i))) =
          .ok (rs, t) ∧
      (∀ it ∈ t.all, it.value.isSome ∧ (t.fn.dupValue it.value).isSome) ∧
      t.keys row = .error .endlessLoop := by
  have hkey := replicate_succ_injective 97
  obtain ⟨-, rs, t, hrun, hinv, hvalues⟩ := run_map_range (P := Fits) (n := 31) step
    (fun n t => Collided (fun i => replicate (i + 1) (97 : UInt8)) n t ∧
      ∀ p ∈ t.pairs, p.2.isSome)
    (fun i => .map (.insert (replicate (i + 1) 97) (some i)))
    (fun i hi s hs => by
      obtain ⟨hs, hvalues⟩ := hs
      have hfit := hs.insertFits hkey (by omega)
      obtain ⟨t', he, ht'⟩ := hs.insert hkey (by omega) (some i)
      have hnew : Unbound s.fn (replicate (i + 1) 97) s.pairs := by
        intro p hp
        obtain ⟨it, hit, rfl⟩ := mem_map.mp hp
        simpa [Callbacks.sameKey] using hs.sameKey_false hkey hit
      obtain ⟨t₁, he₁, -, -, hperm⟩ := hs.wf.insert_new (hs.fn_eq ▸ colliding_lawful) (some i) hnew hfit
      obtain rfl : t₁ = t' := by
        rw [he] at he₁
        cases he₁
        rfl
      refine ⟨hfit, .rc 0, t₁, by rw [step, mapStep, he]; rfl, ht', fun p hp => ?_⟩
      rcases mem_cons.mp (hperm.mem_iff.mp hp) with rfl | hp
      · rw [hs.fn_eq]
        rfl
      · exact hvalues p hp)
    ⟨collided_new _, by rw [pairs_new]; exact fun p hp => absurd hp not_mem_nil⟩
  have hlimit : 2 ^ 32 ≤ t.limit := by
    rw [limit, hinv.prime_eq]
    decide +kernel
  refine ⟨rs, t, hrun, fun it hit => ?_, ?_⟩
  · have hvalue : it.value.isSome := hvalues _ (mem_map_of_mem hit)
    rw [hinv.fn_eq]
    exact ⟨hvalue, hvalue⟩
  · exact listOf_of_ge _ _ hlimit row_fresh fun it _ => canDup_key it

end Zhashx

end Czmq
