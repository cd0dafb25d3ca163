import Czmq.Zhashx.File

/-! Tables with strings for keys: what a table binds is a function of the strings, which every
operation changes at one string at most. -/

namespace Czmq

open Bytes

variable {V : Type}

structure Callbacks.Strings (fn : Callbacks CString V) : Prop where
  keyDuplicator : fn.keyDuplicator = some id
  keyComparator : fn.keyComparator = fun a b => strcmp a.1 b.1

section
variable {fn : Callbacks CString V}

lemma Callbacks.Strings.comparator_iff (h : fn.Strings) {a b : CString} :
    fn.keyComparator a b = 0 ↔ a = b := by
  rw [h.keyComparator, strcmp_eq_zero_iff, Subtype.ext_iff]

lemma Callbacks.Strings.lawful (h : fn.Strings) : fn.Lawful where
  refl a := h.comparator_iff.mpr rfl
  symm a b hab := h.comparator_iff.mpr (h.comparator_iff.mp hab).symm
  trans a b c hab hbc :=
    h.comparator_iff.mpr ((h.comparator_iff.mp hab).trans (h.comparator_iff.mp hbc))
  hash_eq a b hab := by rw [h.comparator_iff.mp hab]
  dup_key a := h.comparator_iff.mpr (by rw [dupKey, h.keyDuplicator]; rfl)

end

namespace Zhashx

def stringCallbacks (V : Type) : Callbacks CString V where
  duplicator := none
  destructor := false
  keyDuplicator := some id
  keyDestructor := true
  keyComparator := fun a b => strcmp a.1 b.1
  hasher := sBernsteinHash

structure Binds (t : Zhashx CString V) (m : CString → Option (Option V)) : Prop where
  wf : Wf t
  strings : t.fn.Strings
  bound : ∀ k, (t.entryOf k).map (·.value) = m k

section
variable {t t' : Zhashx CString V} {m : CString → Option (Option V)}

lemma binds_new {fn : Callbacks CString V} (h : fn.Strings) : Binds (new fn) fun _ => none :=
  ⟨wf_new fn, h, fun k => by simp [new, entryOf, entries, all]⟩

lemma Binds.exists_represents (h : Binds t m) :
    ∃ M : AbsMap h.strings.lawful, Represents t M ∧ ∀ k, M (AbsMap.key _ k) = m k := by
  obtain ⟨M, hM⟩ := h.wf.exists_represents h.strings.lawful
  exact ⟨M, hM, fun k => (hM.bound k).trans (h.bound k)⟩

lemma Represents.binds {fn : Callbacks CString V} {hfn : fn.Lawful} {M : AbsMap hfn}
    (h : Represents t M) (hs : fn.Strings) : Binds t fun k => M (AbsMap.key hfn k) :=
  ⟨h.wf, by rw [h.fn_eq]; exact hs, fun k => (h.bound k).symm⟩

lemma Binds.congr {n : CString → Option (Option V)} (h : Binds t m) (hmn : ∀ k, m k = n k) :
    Binds t n := ⟨h.wf, h.strings, fun k => (h.bound k).trans (hmn k)⟩

variable {k : CString}

lemma Binds.lookup (h : Binds t m) (hfit : t.LookupFits k) :
    ∃ t', t.lookup k = .ok ((m k).join, t') ∧ Binds t' m ∧ t'.fn = t.fn := by
  obtain ⟨M, hM, hm⟩ := h.exists_represents
  obtain ⟨t', he, hM'⟩ := hM.lookup hfit
  rw [hm] at he
  exact ⟨t', he, (hM'.binds h.strings).congr hm, hM'.fn_eq⟩

lemma Binds.insert (h : Binds t m) (v : Option V) (hfit : t.InsertFits k) :
    ∃ t', t.insert k v = .ok (if (m k).isNone then 0 else -1, t') ∧ t'.fn = t.fn ∧
      Binds t' (if (m k).isNone then Function.update m k (some (t.fn.dupValue v)) else m) := by
  obtain ⟨M, hM, hm⟩ := h.exists_represents
  obtain ⟨t', he, hM'⟩ := hM.insert v hfit
  have hk := hm k
  rw [AbsMap.step] at he hM'
  cases hmk : m k with
  | none =>
    rw [hmk] at hk
    rw [hk] at he hM'
    refine ⟨t', mapStep_insert_eq_iff.mp he, hM'.fn_eq, (hM'.binds h.strings).congr fun k' => ?_⟩
    change M.put k (some (t.fn.dupValue v)) (AbsMap.key _ k') = _
    rw [AbsMap.put_key, hm, Option.isNone_none, if_pos rfl, Function.update_apply]
    refine if_congr ?_ rfl rfl
    rw [h.strings.comparator_iff, eq_comm]
  | some w =>
    rw [hmk] at hk
    rw [hk] at he hM'
    exact ⟨t', mapStep_insert_eq_iff.mp he, hM'.fn_eq, (hM'.binds h.strings).congr hm⟩

lemma Binds.update (h : Binds t m) (v : Option V) (hfit : t.MapFits (.update k v)) :
    ∃ t', t.update k v = .ok t' ∧ t'.fn = t.fn ∧
      Binds t' (Function.update m k (some (t.fn.dupValue v))) := by
  obtain ⟨M, hM, hm⟩ := h.exists_represents
  obtain ⟨t', he, hM'⟩ := hM.update v hfit
  refine ⟨t', he, hM'.fn_eq, (hM'.binds h.strings).congr fun k' => ?_⟩
  rw [AbsMap.put_key, hm, Function.update_apply]
  refine if_congr ?_ rfl rfl
  rw [h.strings.comparator_iff, eq_comm]

lemma Binds.of_empty (h : Binds t m) (hshape : Shape t') (hall : t'.all = [])
    (hfn : t'.fn = t.fn) : Binds t' fun _ => none := by
  obtain ⟨M, hM, -⟩ := h.exists_represents
  exact (hM.purged hshape hall hfn).binds h.strings

lemma Binds.mem_pairs_iff (h : Binds t m) {v : Option V} :
    (k, v) ∈ t.pairs ↔ m k = some v := by
  obtain ⟨M, hM, hm⟩ := h.exists_represents
  rw [hM.mem_pairs_iff h.strings.keyComparator, hm]

lemma Binds.updates (h : Binds t m) {ps : List (CString × Option V)}
    (hfit : Machine.StepsMeet mapStep MapFits t (ps.map fun p => .update p.1 p.2)) :
    ∃ rs t', Machine.run mapStep t (ps.map fun p => .update p.1 p.2) = .ok (rs, t') ∧
      ∃ m', Binds t' m' := by
  induction ps generalizing t m with
  | nil => exact ⟨[], t, rfl, m, h⟩
  | cons p ps ih =>
    obtain ⟨t1, he, -, hbinds⟩ := h.update p.2 hfit.head
    have hstep : t.mapStep (.update p.1 p.2) = .ok (.void, t1) := by rw [mapStep, he]; rfl
    obtain ⟨rs, t', hrun, hbinds'⟩ := ih hbinds (hfit.tail hstep)
    refine ⟨.void :: rs, t', ?_, hbinds'⟩
    rw [List.map_cons, Machine.run_cons_ok hstep, hrun]
    rfl

lemma Binds.size_eq_zero_iff (h : Binds t m) : t.size = 0 ↔ ∀ k, m k = none := by
  have hsize : t.size = t.entries.length := by rw [length_entries, h.wf.size_eq]
  constructor
  · intro hzero k
    rw [hsize] at hzero
    rw [← h.bound k, entryOf, List.length_eq_zero_iff.mp hzero]
    rfl
  · intro hnone
    rw [hsize, List.length_eq_zero_iff]
    by_contra hne
    obtain ⟨e, rest, he⟩ := List.exists_cons_of_ne_nil hne
    have hk := h.bound e.key
    rw [hnone, Option.map_eq_none_iff, entryOf_eq_none_iff] at hk
    exact hk e (by rw [he]; exact List.mem_cons_self) (h.strings.comparator_iff.mpr rfl)

end

end Zhashx

end Czmq
