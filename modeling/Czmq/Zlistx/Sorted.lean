import Czmq.Zlistx.Sort

/-! The order in which the callers of `zlistx_sort` find their items again. -/

namespace Czmq.Zlistx

open List

variable {I : Type} {fn : ListCallbacks I} {t : Zlistx I} {a : CursorList I}

def addAll : Nat → Zlistx I → List I → Except Fault (Zlistx I)
  | _, t, [] => .ok t
  | node, t, item :: items => do
    let (_, t) ← t.addEnd node (some item)
    addAll (node + 1) t items

def nextAll : Nat → Zlistx I → Except Fault (List I)
  | 0, _ => .ok []
  | n + 1, t => do
    let (item, t) ← t.nextItem
    let items ← nextAll n t
    pure (item.toList ++ items)

def comparing (compare : I → I → Int) : ListCallbacks I where
  duplicator := none
  destructor := false
  comparator := fun
    | some x, some y => compare x y
    | _, _ => 0

def sortedItems (compare : I → I → Int) (shrink : Nat → Nat) (rounds : Nat) (items : List I) :
    Except Fault (List I) := do
  let memory : Heap I := ⟨fun _ => 0, fun _ => 0, fun _ => none, fun _ => false⟩
  let t ← addAll 1 (new memory 0 (comparing compare)) items
  let t ← t.sort shrink rounds
  nextAll items.length t

variable {compare : I → I → Int}

lemma Refines.addAll (h : Refines (comparing compare) t a) {node : Nat}
    (hnode : ∀ x, node ≤ x → t.tag x = false) (hcursor : a.cursor = none) (items : List I) :
    ∃ t' a', Zlistx.addAll node t items = .ok t' ∧ Refines (comparing compare) t' a' ∧
      a'.entries.map Prod.snd = a.entries.map Prod.snd ++ items.map some ∧ a'.cursor = none := by
  induction items generalizing t a node with
  | nil => exact ⟨t, a, rfl, h, by simp, hcursor⟩
  | cons item items ih =>
    have hdup : t.fn.CanDup (some item) := by
      rw [h.fn_eq]
      exact fun hsome => absurd hsome Bool.false_ne_true
    obtain ⟨t1, hadd, h1⟩ := h.addEnd ⟨hnode node le_rfl, rfl, hdup⟩
    have hnode1 : ∀ x, node + 1 ≤ x → t1.tag x = false := by
      intro x hx
      rw [(tag_of_addEnd hadd).1, Function.update_of_ne (by omega)]
      exact hnode x (by omega)
    obtain ⟨t', a', hrest, h', hitems, hcursor'⟩ := ih h1 hnode1 rfl
    refine ⟨t', a', ?_, h', ?_, hcursor'⟩
    · rw [Zlistx.addAll, hadd]
      exact hrest
    · rw [hitems, CursorList.step]
      simp [ListCallbacks.dup, comparing]

lemma Refines.nextAll (h : Refines fn t a) {es fs : List (Nat × Option I)}
    (hsplit : a.entries = es ++ fs) (hcursor : a.cursor = es.getLast?.map Prod.fst) :
    Zlistx.nextAll fs.length t = .ok (fs.filterMap Prod.snd) := by
  induction fs generalizing t a es with
  | nil => rfl
  | cons e fs ih =>
    have hnodup : (handles es).Nodup := by
      have hall := h.holds.nodup
      rw [hsplit, handles_append, nodup_append] at hall
      exact hall.1
    obtain ⟨t', item, hnext, hitem, h'⟩ := h.nextItem
    rw [CursorList.step_next_eq_goTo fn hsplit hnodup hcursor] at hitem h'
    obtain rfl : e.2 = item := by simpa [CursorList.goTo] using hitem
    have hsplit' : (a.goTo (e :: fs).head?).2.entries = es ++ [e] ++ fs := by
      simp [CursorList.goTo, hsplit]
    have hrest := ih h' hsplit' (by simp [CursorList.goTo])
    rw [length_cons, Zlistx.nextAll, hnext, ok_bind]
    dsimp only
    rw [hrest, filterMap_cons]
    cases e.2 <;> rfl

lemma map_some_filterMap {items : List (Option I)} {xs : List I} (h : items.Perm (xs.map some)) :
    (items.filterMap fun x => x).map some = items := by
  have hsome : ∀ x ∈ items, ∃ y, some y = x := by
    intro x hx
    obtain ⟨y, -, hy⟩ := mem_map.mp (h.mem_iff.mp hx)
    exact ⟨y, hy⟩
  clear h
  induction items with
  | nil => rfl
  | cons x items ih =>
    rw [forall_mem_cons] at hsome
    obtain ⟨⟨y, rfl⟩, hitems⟩ := hsome
    exact congrArg (some y :: ·) (ih hitems)

lemma sortedItems_spec {items : List I}
    (hfn : Comb.TotalPreorder (fun x y => decide (0 < compare x y)) items) {shrink : Nat → Nat}
    (hshrink : Comb.Shrinks shrink) :
    ∃ sorted, sorted.Perm items ∧ sorted.IsChain (fun x y => compare x y ≤ 0) ∧
      ∃ rounds, ∀ n, rounds ≤ n → sortedItems compare shrink n items = .ok sorted := by
  have hnew := refines_new (⟨fun _ => 0, fun _ => 0, fun _ => none, fun _ => false⟩ : Heap I) 0
    (comparing compare)
  have htag : ∀ x, 1 ≤ x → (new (⟨fun _ => 0, fun _ => 0, fun _ => none, fun _ => false⟩ : Heap I) 0
      (comparing compare)).tag x = false := by
    intro x hx
    exact Function.update_of_ne (Nat.one_le_iff_ne_zero.mp hx) ..
  obtain ⟨t, a, hadd, h, hitems, hcursor⟩ := hnew.addAll htag rfl items
  replace hitems : a.entries.map Prod.snd = items.map some := hitems
  have hfn' : Comb.TotalPreorder (above (comparing compare)) (a.entries.map Prod.snd) := by
    rw [hitems]
    refine ⟨?_, ?_⟩
    · rw [forall_mem_map]
      intro x hx
      rw [forall_mem_map]
      exact hfn.total x hx
    · rw [forall_mem_map]
      intro x hx
      rw [forall_mem_map]
      intro y hy
      rw [forall_mem_map]
      exact hfn.trans x hx y hy
  obtain ⟨t', items', h', hperm, hchain, rounds, hrounds⟩ := h.sort hfn' hshrink
  rw [hitems] at hperm
  have hsome := map_some_filterMap hperm
  have hlen : items'.length = items.length := by rw [hperm.length_eq, length_map]
  have hlen' : (handles a.entries).length = items'.length := by
    rw [hlen, handles]
    simpa using congrArg length hitems
  refine ⟨items'.filterMap fun x => x, ?_, ?_, rounds, fun n hn => ?_⟩
  · simpa using hperm.filterMap fun x => x
  · rw [← hsome, isChain_map] at hchain
    exact hchain
  · have hread := h'.nextAll (nil_append _).symm hcursor
    rw [length_zip, hlen', Nat.min_self, hlen] at hread
    have hitems' : ((handles a.entries).zip items').filterMap Prod.snd = items'.filterMap fun x => x := by
      nth_rewrite 2 [← map_snd_zip hlen'.ge]
      rw [filterMap_map]
      rfl
    rw [sortedItems, hadd, ok_bind, hrounds n hn, ok_bind, hread, hitems']

end Czmq.Zlistx
