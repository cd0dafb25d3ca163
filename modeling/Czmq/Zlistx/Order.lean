import Czmq.Zlistx.Sort

/-! Lists that are kept in order. `zlistx_insert` and `zlistx_reorder` look for a place from the
start or from the end; both are right for any comparator that orders the items. -/

namespace Czmq.Zlistx

open Prod List CursorList

section
variable {α : Type} {r : α → α → Prop} {p : α → Bool} {e : α} {l : List α}

lemma pairwise_takeWhile_cons_dropWhile (hl : l.Pairwise r)
    (htrans : ∀ x ∈ l, ∀ y ∈ l, r e x → r x y → r e y) (hskip : ∀ x ∈ l, p x = true → r x e)
    (hstop : ∀ x ∈ l, p x = false → r e x) :
    (l.takeWhile p ++ e :: l.dropWhile p).Pairwise r := by
  have hparts := hl
  rw [← takeWhile_append_dropWhile (l := l), pairwise_append] at hparts
  have hbefore : ∀ x ∈ l.takeWhile p, r x e := fun x hx =>
    hskip x ((takeWhile_sublist p).mem hx) (mem_takeWhile_imp hx)
  have hbehind : ∀ y ∈ l.dropWhile p, r e y := by
    intro y hy
    have hmem : ∀ z ∈ l.dropWhile p, z ∈ l := fun z hz => (dropWhile_sublist p).mem hz
    have hhead := head?_dropWhile_not p l
    cases hd : l.dropWhile p with
    | nil =>
      rw [hd] at hy
      cases hy
    | cons z zs =>
      rw [hd] at hy hmem hhead
      have hz : r e z := by
        apply hstop z (hmem z (mem_cons_self ..))
        simpa using hhead
      rcases mem_cons.mp hy with rfl | hzs
      · exact hz
      · have hzy : r z y := by
          have hpairs := hparts.2.1
          rw [hd] at hpairs
          exact rel_of_pairwise_cons hpairs hzs
        exact htrans z (hmem z (mem_cons_self ..)) y (hmem y hy) hz hzy
  rw [pairwise_append]
  refine ⟨hparts.1, pairwise_cons.mpr ⟨hbehind, hparts.2.1⟩, fun x hx y hy => ?_⟩
  rcases mem_cons.mp hy with rfl | hy
  · exact hbefore x hx
  · exact hparts.2.2 x hx y hy

lemma pairwise_rdropWhile_cons_rtakeWhile (hl : l.Pairwise r)
    (htrans : ∀ x ∈ l, ∀ y ∈ l, r x y → r y e → r x e) (hskip : ∀ x ∈ l, p x = true → r e x)
    (hstop : ∀ x ∈ l, p x = false → r x e) :
    (l.rdropWhile p ++ e :: l.rtakeWhile p).Pairwise r := by
  have hreverse : (l.rdropWhile p ++ e :: l.rtakeWhile p).reverse =
      l.reverse.takeWhile p ++ e :: l.reverse.dropWhile p := by
    rw [rdropWhile, rtakeWhile, reverse_append, reverse_cons, reverse_reverse,
      reverse_reverse, append_assoc, singleton_append]
  rw [← pairwise_reverse, hreverse]
  apply pairwise_takeWhile_cons_dropWhile (pairwise_reverse.mpr hl)
  · intro x hx y hy hex hxy
    exact htrans y (mem_reverse.mp hy) x (mem_reverse.mp hx) hxy hex
  · exact fun x hx => hskip x (mem_reverse.mp hx)
  · exact fun x hx => hstop x (mem_reverse.mp hx)

end

variable {I : Type} {fn : ListCallbacks I} {t : Zlistx I} {a : CursorList I}
  {entries : List (Nat × Option I)}

def Ascending (fn : ListCallbacks I) (entries : List (Nat × Option I)) : Prop :=
  entries.Pairwise fun x y => fn.comparator x.2 y.2 ≤ 0

lemma above_eq_false_iff {x y : Option I} : above fn x y = false ↔ fn.comparator x y ≤ 0 := by
  unfold above
  rw [decide_eq_false_iff_not, not_lt]

lemma ascending_place {e : Nat × Option I}
    (hfn : Comb.TotalPreorder (above fn) (e.2 :: entries.map snd)) (h : Ascending fn entries)
    (lowValue : Bool) : Ascending fn (place fn entries e lowValue) := by
  have hmem : ∀ x ∈ entries, x.2 ∈ e.2 :: entries.map snd := fun x hx =>
    mem_cons_of_mem _ (mem_map_of_mem hx)
  have he : e.2 ∈ e.2 :: entries.map snd := mem_cons_self ..
  have htrans : ∀ {x y z : Option I}, x ∈ e.2 :: entries.map snd →
      y ∈ e.2 :: entries.map snd → z ∈ e.2 :: entries.map snd →
      fn.comparator x y ≤ 0 → fn.comparator y z ≤ 0 → fn.comparator x z ≤ 0 := by
    intro x y z hx hy hz hxy hyz
    rw [← above_eq_false_iff] at *
    exact hfn.trans x hx y hy z hz hxy hyz
  -- of two items one is not above the other
  have hor : ∀ {x y : Option I}, x ∈ e.2 :: entries.map snd →
      y ∈ e.2 :: entries.map snd → 0 < fn.comparator x y → fn.comparator y x ≤ 0 := by
    intro x y hx hy hxy
    rw [← above_eq_false_iff]
    exact (hfn.total x hx y hy).resolve_left fun hf => absurd (above_eq_false_iff.mp hf) (not_le.mpr hxy)
  unfold place
  split
  · apply pairwise_takeWhile_cons_dropWhile h
    · exact fun x hx y hy => htrans he (hmem x hx) (hmem y hy)
    · exact fun x hx hp => hor he (hmem x hx) (of_decide_eq_true hp)
    · exact fun x hx hp => not_lt.mp (of_decide_eq_false hp)
  · apply pairwise_rdropWhile_cons_rtakeWhile h
    · exact fun x hx y hy => htrans (hmem x hx) (hmem y hy) he
    · exact fun x hx hp => hor (hmem x hx) he (of_decide_eq_true hp)
    · exact fun x hx hp => not_lt.mp (of_decide_eq_false hp)

lemma exists_place (fn : ListCallbacks I) (entries : List (Nat × Option I)) (e : Nat × Option I)
    (lowValue : Bool) :
    ∃ es fs, entries = es ++ fs ∧ place fn entries e lowValue = es ++ e :: fs := by
  unfold place
  split
  · exact ⟨_, _, takeWhile_append_dropWhile.symm, rfl⟩
  · exact ⟨_, _, (rdropWhile_append_rtakeWhile ..).symm, rfl⟩

lemma Refines.others_eq (h : Refines fn t a) {x : Nat} (hx : t.Live x) :
    others [x] a.entries = a.before x ++ a.after x := by
  obtain ⟨es, item, fs, hsplit, hn, -⟩ := h.exists_split (h.holds.mem_of_live hx)
  have hnodup := h.holds.nodup
  rw [hsplit, handles_append, handles_cons, nodup_append, nodup_cons] at hnodup
  have hkeep : ∀ gs : List (Nat × Option I), x ∉ handles gs → others [x] gs = gs := by
    intro gs hgs
    refine filter_eq_self.mpr fun e he => decide_eq_true fun hmem => hgs ?_
    rw [← mem_singleton.mp hmem]
    exact mem_handles he
  rw [← others_before_after, before_eq hsplit hn, after_eq hsplit hn,
    others_append, hkeep es hn, hkeep fs hnodup.2.1.1]

/-- A sorted list stays sorted when `zlistx_insert` puts an item into it, or `zlistx_reorder` the
item of a handle if the others are sorted. -/
theorem sorted_insert_reorder (h : Refines fn t a) (lowValue : Bool) :
    (∀ node item, t.Valid (.insert node item lowValue) →
      Comb.TotalPreorder (above fn) (fn.dup item :: a.entries.map snd) →
      Ascending fn a.entries →
      ∃ t' es fs, t.insert node item lowValue = .ok (node, t') ∧ a.entries = es ++ fs ∧
        Refines fn t' { a with entries := es ++ (node, fn.dup item) :: fs, cursor := none } ∧
        Ascending fn (es ++ (node, fn.dup item) :: fs)) ∧
    (∀ x, t.Live x → Comb.TotalPreorder (above fn) (a.entries.map snd) →
      Ascending fn (others [x] a.entries) →
      ∃ t' entries, t.reorder x lowValue = .ok t' ∧
        Refines fn t' { a with entries := entries } ∧ Ascending fn entries ∧
        entries.Perm a.entries ∧
        others [x] entries = others [x] a.entries) := by
  constructor
  · intro node item hv hfn hsorted
    obtain ⟨t', he, hr⟩ := h.insert hv
    obtain ⟨es, fs, hsplit, hplace⟩ := exists_place fn a.entries (node, fn.dup item) lowValue
    refine ⟨t', es, fs, he, hsplit, ?_, ?_⟩
    · rw [← hplace]
      exact hr
    · rw [← hplace]
      exact ascending_place hfn hsorted lowValue
  · intro x hx hfn hsorted
    obtain ⟨es, item, fs, hsplit, hn, -⟩ := h.exists_split (h.holds.mem_of_live hx)
    obtain ⟨t', he, hr⟩ := h.reorder hx lowValue
    rw [h.others_eq hx] at hsorted
    have hperm : ((x, a.itemAt x) :: (a.before x ++ a.after x)).Perm a.entries := by
      rw [before_eq hsplit hn, after_eq hsplit hn,
        itemAt_eq hsplit hn, hsplit]
      exact perm_middle.symm
    have hmem : ∀ v, v ∈ (x, a.itemAt x).2 :: (a.before x ++ a.after x).map snd →
        v ∈ a.entries.map snd := fun v hv => (hperm.map snd).mem_iff.mp hv
    refine ⟨t', _, he, hr, ascending_place ⟨?_, ?_⟩ hsorted lowValue, ?_, ?_⟩
    · exact fun v hv w hw => hfn.total v (hmem v hv) w (hmem w hw)
    · exact fun u hu v hv w hw => hfn.trans u (hmem u hu) v (hmem v hv) w (hmem w hw)
    · exact (perm_place ..).trans hperm
    · exact step_others fn a (.reorder x lowValue)

lemma totalPreorder_byValue (values : List (Option Nat)) :
    Comb.TotalPreorder (above byValue) values := by
  have hkey : ∀ x y : Option Nat, above byValue x y = true ↔ y.getD 0 < x.getD 0 := by
    intro x y
    unfold above byValue
    simp only [decide_eq_true_eq]
    omega
  exact Comb.totalPreorder_of_key hkey values

/-- Another 3 goes behind the two that are there, and the later of those to the front of them. -/
theorem sorted_insert_reorder_equal : ∃ t a, Refines byValue t a ∧
    a.entries = [(1, some 1), (2, some 3), (3, some 3), (4, some 5)] ∧
    (∃ t' es fs, t.insert 5 (some 3) false = .ok (5, t') ∧ a.entries = es ++ fs ∧
      Refines byValue t' { a with entries := es ++ (5, some 3) :: fs, cursor := none } ∧
      Ascending byValue (es ++ (5, some 3) :: fs)) ∧
    ∃ t' entries, t.reorder 3 true = .ok t' ∧ Refines byValue t' { a with entries := entries } ∧
      Ascending byValue entries ∧ entries.Perm a.entries ∧
      others [3] entries = others [3] a.entries := by
  have hvalid : Machine.StepsMeet listStep Valid (new blank 0 byValue)
      [.addEnd 1 (some 1), .addEnd 2 (some 3), .addEnd 3 (some 3), .addEnd 4 (some 5)] :=
    Machine.stepsMeet_of_checkSteps (by decide +kernel)
  obtain ⟨t, hrun, hr⟩ := Machine.run_refines (step byValue)
    (fun _ _ _ h hv => h.step hv) (refines_new blank 0 byValue) hvalid
  have hsorted : Ascending byValue [(1, some 1), (2, some 3), (3, some 3), (4, some 5)] := by
    unfold Ascending byValue
    decide
  have hlive : t.tag 5 = false ∧ t.Live 3 := by
    have hcheck : ∀ x ∈ (Machine.run listStep (new blank 0 byValue) [.addEnd 1 (some 1),
        .addEnd 2 (some 3), .addEnd 3 (some 3), .addEnd 4 (some 5)]).toOption,
        x.2.tag 5 = false ∧ x.2.tag 3 = true ∧ 3 ≠ x.2.head := by decide +kernel
    exact hcheck _ (congrArg _ hrun)
  refine ⟨t, _, hr, rfl, ?_, ?_⟩
  · exact (sorted_insert_reorder hr false).1 5 (some 3) ⟨hlive.1, hr.fn_eq ▸ by decide⟩
      (totalPreorder_byValue _) hsorted
  · exact (sorted_insert_reorder hr true).2 3 hlive.2 (totalPreorder_byValue _)
      (hsorted.sublist filter_sublist)

end Czmq.Zlistx
