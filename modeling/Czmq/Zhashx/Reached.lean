import Czmq.Zhashx.Refinement

/-! The tables that a run can reach, as long as the caller keeps to the rules for the callbacks. -/

namespace Czmq

variable {K V : Type}

namespace Zhashx

/-- The callbacks for keys stay lawful, and those that place an item change in an empty table only.
-/
def Steady (t : Zhashx K V) : TableOp K V → Prop
  | .setKeyDuplicator d => { t.fn with keyDuplicator := d }.Lawful
  | .setKeyComparator c => t.size = 0 ∧ { t.fn with keyComparator := c }.Lawful
  | .setKeyHasher h => t.size = 0 ∧ { t.fn with hasher := h }.Lawful
  | _ => True

section
variable {t t' : Zhashx K V}

lemma Wf.exists_represents (h : Wf t) (hfn : t.fn.Lawful) : ∃ m : AbsMap hfn, Represents t m :=
  ⟨Quotient.lift (fun k => (t.entryOf k).map (·.value)) fun _ _ hab =>
    congrArg (Option.map _) (entryOf_congr hfn hab), h, rfl, fun _ => rfl⟩

variable {r : Result V}

lemma Shape.mapFits (h : Shape t) {op : MapOp K V}
    (hstep : t.mapStep op = .ok (r, t')) : t.MapFits op := by
  by_contra hfit
  obtain ⟨i, he⟩ := mapStep_of_not_fits h op hfit
  rw [he] at hstep
  cases hstep

lemma Shape.snug_mapStep (h : Shape t) {op : MapOp K V} (hstep : t.mapStep op = .ok (r, t'))
    (hsnug : Snug t) : Snug t' := by
  have hcap : Bounds id := ⟨fun n => Nat.div_le_of_le_mul (by rw [id]; omega), by decide +kernel⟩
  rcases mapStep_of_fits h op (h.mapFits hstep) with ⟨_, _, he, ha⟩ | he
  · cases he.symm.trans hstep
    exact ha.bound hcap hsnug
  · cases he.symm.trans hstep

lemma Wf.mapStep (h : Wf t) (hfn : t.fn.Lawful) {op : MapOp K V}
    (hstep : t.mapStep op = .ok (r, t')) : Wf t' ∧ t'.fn = t.fn := by
  obtain ⟨m, hm⟩ := h.exists_represents hfn
  have hfit := h.toShape.mapFits hstep
  have hpurge : t.PurgeEnds op := by
    cases op with
    | purge =>
      by_contra hlim
      rw [Zhashx.mapStep, purge, sPurge_of_ge h.toShape (not_lt.mp hlim)] at hstep
      cases hstep
    | _ => trivial
  obtain ⟨t1, he, hr⟩ := hm.mapStep op hfit hpurge
  rw [he] at hstep
  cases hstep
  exact ⟨hr.wf, hr.fn_eq⟩

lemma Wf.setCallbacks_of_empty (h : Wf t) (hsize : t.size = 0) (fn : Callbacks K V) :
    Wf { t with fn := fn } := by
  have hall : t.all = [] := List.length_eq_zero_iff.mp (h.size_eq ▸ hsize)
  refine ⟨h.toShape.congr rfl rfl rfl rfl, ?_, ?_⟩
  · change ∀ it ∈ t.all, _
    rw [hall]
    exact fun it hit => absurd hit List.not_mem_nil
  · change (t.all.map Item.unplaced).Pairwise _
    rw [hall]
    exact List.Pairwise.nil

structure Reached (t : Zhashx K V) : Prop where
  wf : Wf t
  lawful : t.fn.Lawful
  snug : Snug t

lemma Reached.step (h : Reached t) {op : TableOp K V} (hop : t.Steady op)
    (hstep : t.step op = .ok (r, t')) : Reached t' := by
  obtain ⟨hwf, hfn, hsnug⟩ := h
  cases op with
  | map op =>
    obtain ⟨hwf', he⟩ := hwf.mapStep hfn hstep
    exact ⟨hwf', he ▸ hfn, hwf.toShape.snug_mapStep hstep hsnug⟩
  | first =>
    obtain ⟨⟨v, u⟩, hfirst, he⟩ := bind_eq_ok.mp hstep
    cases he
    obtain ⟨hp, hi, hs, hfr, he⟩ := first_frame hfirst
    exact ⟨hwf.congr hp hi hs hfr he, he ▸ hfn, by rwa [Snug, limit, hp, hs]⟩
  | next =>
    obtain ⟨⟨v, u⟩, hnext, he⟩ := bind_eq_ok.mp hstep
    cases he
    obtain ⟨hp, hi, hs, hfr, he⟩ := next_frame hnext
    exact ⟨hwf.congr hp hi hs hfr he, he ▸ hfn, by rwa [Snug, limit, hp, hs]⟩
  | setDestructor d | setKeyDestructor d | setDuplicator d =>
    cases hstep
    exact ⟨⟨hwf.toShape.congr rfl rfl rfl rfl, hwf.hashed, hwf.distinct⟩,
      { hfn with }, hsnug⟩
  | setKeyDuplicator d =>
    cases hstep
    exact ⟨⟨hwf.toShape.congr rfl rfl rfl rfl, hwf.hashed, hwf.distinct⟩, hop, hsnug⟩
  | setKeyComparator c | setKeyHasher c =>
    cases hstep
    exact ⟨hwf.setCallbacks_of_empty hop.1 _, hop.2, hsnug⟩

lemma reached_of_run {fn : Callbacks K V} (hfn : fn.Lawful) {ops : List (TableOp K V)}
    (hops : Machine.StepsMeet Zhashx.step Steady (new fn) ops) {rs : List (Result V)}
    (hrun : Machine.run Zhashx.step (new fn) ops = .ok (rs, t)) : Reached t :=
  hops.run_invariant Reached (fun _ _ _ _ h hop he => h.step hop he) ⟨wf_new fn, hfn, Nat.zero_le _⟩ hrun

end

end Zhashx

end Czmq
