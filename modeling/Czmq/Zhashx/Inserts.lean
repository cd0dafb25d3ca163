import Czmq.Zhashx.Refinement

/-! Insertions under different keys, as the functions that copy and unpack a table make them. -/

namespace Czmq

variable {K V : Type}

namespace Zhashx

def pairs (t : Zhashx K V) : List (K × Option V) := t.all.map fun it => (it.key, it.value)

lemma pairs_eq_map_entries (t : Zhashx K V) :
    t.pairs = t.entries.map fun e => (e.key, e.value) := by
  rw [entries, List.map_map]
  rfl

lemma pairs_new (fn : Callbacks K V) : (new fn).pairs = [] := by simp [new, pairs, all]

lemma Shape.length_pairs {t : Zhashx K V} (h : Shape t) : t.pairs.length = t.size := by
  rw [pairs, List.length_map, h.size_eq]

/-- Insertions of the pairs, each of a new key, take one table to the other. -/
def InsertsTo : Zhashx K V → List (K × Option V) → Zhashx K V → Prop
  | t, [], t' => t' = t
  | t, p :: ps, t' => ∃ t1, t.insert p.1 p.2 = .ok (0, t1) ∧ InsertsTo t1 ps t'

def inserts (ps : List (K × Option V)) : List (MapOp K V) := ps.map fun p => .insert p.1 p.2

section
variable {t t' : Zhashx K V} {ps : List (K × Option V)}

lemma insertsTo_append {qs : List (K × Option V)} :
    InsertsTo t (ps ++ qs) t' ↔ ∃ t1, InsertsTo t ps t1 ∧ InsertsTo t1 qs t' := by
  induction ps generalizing t with
  | nil => simp [InsertsTo]
  | cons p ps ih =>
    simp only [List.cons_append, InsertsTo, ih]
    constructor
    · rintro ⟨u, hu, t1, hps, hqs⟩
      exact ⟨t1, ⟨u, hu, hps⟩, hqs⟩
    · rintro ⟨t1, ⟨u, hu, hps⟩, hqs⟩
      exact ⟨u, hu, t1, hps, hqs⟩

lemma mapStep_insert_eq_iff {k : K} {v : Option V} {rc : Int} :
    t.mapStep (.insert k v) = .ok (.rc rc, t') ↔ t.insert k v = .ok (rc, t') := by
  rw [mapStep]
  cases t.insert k v with
  | error e => simp
  | ok p => simp [Prod.ext_iff]

lemma Shape.insertFits (h : Shape t) {k : K} {v : Option V} {rc : Int}
    (hins : t.insert k v = .ok (rc, t')) : t.InsertFits k := by
  by_contra hfit
  obtain ⟨i, he⟩ := h.insert_of_not_fits v hfit
  rw [he] at hins
  cases hins

lemma InsertsTo.stepsMeet (h : Shape t) (hins : InsertsTo t ps t') :
    Machine.StepsMeet mapStep MapFits t (inserts ps) := by
  induction ps generalizing t with
  | nil => exact Machine.stepsMeet_nil t
  | cons p ps ih =>
    obtain ⟨t1, hfirst, hrest⟩ := hins
    have hfit := h.insertFits hfirst
    refine .cons hfit fun r t2 hstep => ?_
    rw [mapStep_insert_eq_iff.mpr hfirst] at hstep
    cases hstep
    obtain ⟨rc, t2, he, hs, -⟩ := after_insert h p.2 hfit
    rw [hfirst] at he
    cases he
    exact ih hs hrest

def Unbound (fn : Callbacks K V) (k : K) (ps : List (K × Option V)) : Prop :=
  ∀ p ∈ ps, fn.keyComparator p.1 k ≠ 0

lemma unbound_pairs_iff {k : K} : Unbound t.fn k t.pairs ↔ t.entryOf k = none := by
  rw [entryOf_eq_none_iff, Unbound, pairs_eq_map_entries, List.forall_mem_map]

lemma Wf.insert_new (h : Wf t) (hfn : t.fn.Lawful) {k : K} (v : Option V)
    (hnew : Unbound t.fn k t.pairs) (hfit : t.InsertFits k) :
    ∃ t', t.insert k v = .ok (0, t') ∧ Wf t' ∧ t'.fn = t.fn ∧
      t'.pairs.Perm ((t.fn.dupKey k, t.fn.dupValue v) :: t.pairs) := by
  have hloaded := wf_loaded h hfn hfit.1
  have hfn1 : t.loaded.fn.Lawful := by rwa [loaded_fn]
  have hlooked := wf_looked hloaded hfn1 hfit.2
  have hfn2 : (t.loaded.looked k).fn = t.fn := (looked_fn _ k).trans (loaded_fn t)
  have hfind : t.loaded.find k = none := by
    rw [hloaded.find_eq_none_iff hfn1, entryOf_loaded h hfn hfit.1]
    exact unbound_pairs_iff.mp hnew
  have hfree : (t.loaded.looked k).entryOf k = none := by
    rw [entryOf_looked hloaded hfn1 hfit.2, entryOf_loaded h hfn hfit.1]
    exact unbound_pairs_iff.mp hnew
  refine ⟨(t.loaded.looked k).added k v, ?_, ?_, hfn2, ?_⟩
  · rw [insert_of_fits v hfit, hfind]
  · exact wf_added hlooked (hfn2 ▸ hfn) v (looked_cachedIndex _ _) hfree
  · have hperm := entries_added_perm hlooked.toShape (hfn2 ▸ hfn) v (looked_cachedIndex _ _)
    have hkept := (entries_looked_perm hfit.2).trans (entries_loaded_perm hfit.1)
    rw [pairs_eq_map_entries, pairs_eq_map_entries, ← hfn2]
    exact (hperm.trans (hkept.cons _)).map _

lemma Wf.insert_eq_zero (h : Wf t) (hfn : t.fn.Lawful) {k : K} {v : Option V}
    (hins : t.insert k v = .ok (0, t')) : Wf t' ∧ t'.fn = t.fn ∧
      t'.pairs.Perm ((t.fn.dupKey k, t.fn.dupValue v) :: t.pairs) := by
  have hfit := h.toShape.insertFits hins
  have hnew : Unbound t.fn k t.pairs := by
    rw [unbound_pairs_iff, ← entryOf_loaded h hfn hfit.1,
      ← (wf_loaded h hfn hfit.1).find_eq_none_iff (by rwa [loaded_fn])]
    rw [insert_of_fits v hfit] at hins
    cases hfind : t.loaded.find k with
    | none => rfl
    | some it =>
      rw [hfind] at hins
      cases hins
  obtain ⟨t1, he, hwf, hfn', hperm⟩ := h.insert_new hfn v hnew hfit
  rw [hins] at he
  cases he
  exact ⟨hwf, hfn', hperm⟩

lemma Wf.insertsTo (h : Wf t) (hfn : t.fn.Lawful)
    (hapart : ps.Pairwise fun p q => t.fn.keyComparator p.1 q.1 ≠ 0)
    (hnew : ∀ p ∈ ps, Unbound t.fn p.1 t.pairs)
    (hfit : Machine.StepsMeet mapStep MapFits t (inserts ps)) :
    ∃ t', InsertsTo t ps t' ∧ Wf t' ∧ t'.fn = t.fn ∧
      t'.pairs.Perm (t.pairs ++ ps.map fun p => (t.fn.dupKey p.1, t.fn.dupValue p.2)) := by
  induction ps generalizing t with
  | nil => exact ⟨t, rfl, h, rfl, by rw [List.map_nil, List.append_nil]⟩
  | cons p ps ih =>
    obtain ⟨hp, hps⟩ := List.pairwise_cons.mp hapart
    rw [List.forall_mem_cons] at hnew
    obtain ⟨t1, hins, hwf, hfn1, hperm⟩ := h.insert_new hfn p.2 hnew.1 hfit.head
    -- A later key is neither the one inserted nor one that was there before.
    have hlater : ∀ q ∈ ps, Unbound t1.fn q.1 t1.pairs := by
      intro q hq x hx
      rw [hfn1]
      rcases List.mem_cons.mp (hperm.mem_iff.mp hx) with rfl | hx
      · exact fun he => hp q hq (hfn.trans _ _ _ (hfn.symm _ _ (hfn.dup_key p.1)) he)
      · exact hnew.2 q hq x hx
    obtain ⟨t', hto, hwf', hfn', hperm'⟩ := ih hwf (hfn1 ▸ hfn) (hfn1 ▸ hps) hlater
      (hfit.tail (mapStep_insert_eq_iff.mpr hins))
    refine ⟨t', ⟨t1, hins, hto⟩, hwf', hfn'.trans hfn1, ?_⟩
    rw [hfn1] at hperm'
    exact hperm'.trans ((hperm.append_right _).trans List.perm_middle.symm)

lemma Wf.pairwise_pairs (h : Wf t) :
    t.pairs.Pairwise fun p q => t.fn.keyComparator p.1 q.1 ≠ 0 := by
  rw [pairs_eq_map_entries, List.pairwise_map]
  exact h.distinct

end

end Zhashx

end Czmq
