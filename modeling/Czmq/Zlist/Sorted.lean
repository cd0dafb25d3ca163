import Czmq.Zlist.Sort

/-! A list that is filled, sorted and emptied again, as the callers of `zlist_sort` use it. -/

namespace Czmq.Zlist

variable {I : Type}

def appendAll : Nat → Zlist I → List I → Except Fault (Zlist I)
  | _, t, [] => .ok t
  | node, t, item :: items => do
    let (_, t) ← t.append id node (some item)
    appendAll (node + 1) t items

def popAll : Nat → Zlist I → Except Fault (List I)
  | 0, _ => .ok []
  | n + 1, t => do
    let (item, t) ← t.pop
    let items ← popAll n t
    pure (item.toList ++ items)

def sortedItems [Inhabited I] (compare : I → I → Int) (shrink : Nat → Nat) (rounds : Nat)
    (items : List I) : Except Fault (List I) := do
  let t ← appendAll 0 (new (fun _ => none) fun _ => default) items
  let t ← t.sort (fun _ _ => 0) (some compare) shrink rounds
  popAll items.length t

lemma copied_id (t : Zlist I) (item : I) : t.copied id item = item := by
  rw [copied]
  split <;> rfl

lemma Holds.appendAll {t : Zlist I} {entries : List (Nat × I)} (h : Holds t entries) {node : Nat}
    (hnode : ∀ x ∈ nodes entries, x < node) (items : List I) :
    ∃ t' entries', Zlist.appendAll node t items = .ok t' ∧ Holds t' entries' ∧
      entries'.map Prod.snd = entries.map Prod.snd ++ items := by
  induction items generalizing t entries node with
  | nil => exact ⟨t, entries, rfl, h, (List.append_nil _).symm⟩
  | cons item items ih =>
    have hunused : t.used node = false := by
      rw [Bool.eq_false_iff, Ne, h.live node]
      exact fun hmem => lt_irrefl _ (hnode node hmem)
    obtain ⟨t1, happend, h1⟩ := h.append hunused id item
    rw [copied_id] at h1
    have hnode1 : ∀ x ∈ nodes (entries ++ [(node, item)]), x < node + 1 := by
      intro x hx
      rw [nodes_append, List.mem_append] at hx
      rcases hx with hx | hx
      · exact Nat.lt_succ_of_lt (hnode x hx)
      · exact (List.mem_singleton.mp hx) ▸ Nat.lt_succ_self node
    obtain ⟨t', entries', hrest, h', hitems⟩ := ih h1 hnode1
    refine ⟨t', entries', ?_, h', by simp [hitems]⟩
    rw [Zlist.appendAll, happend]
    exact hrest

lemma Holds.popAll {t : Zlist I} {entries : List (Nat × I)} (h : Holds t entries) :
    Zlist.popAll entries.length t = .ok (entries.map Prod.snd) := by
  induction entries generalizing t with
  | nil => rfl
  | cons e entries ih =>
    obtain ⟨t', hpop, h'⟩ := h.pop
    rw [List.length_cons, Zlist.popAll, hpop, ok_bind]
    dsimp only
    rw [ih h']
    rfl

lemma sortedItems_spec [Inhabited I] {compare : I → I → Int} {items : List I}
    (hfn : Comb.TotalPreorder (above compare) items) {shrink : Nat → Nat}
    (hshrink : Comb.Shrinks shrink) :
    ∃ sorted, sorted.Perm items ∧ sorted.IsChain (fun x y => compare x y ≤ 0) ∧
      ∃ rounds, ∀ n, rounds ≤ n → sortedItems compare shrink n items = .ok sorted := by
  have hnew : Holds (new (fun _ => none) fun _ => (default : I)) [] := holds_new _ _
  have hnone : ∀ x ∈ nodes ([] : List (Nat × I)), x < 0 := by simp
  obtain ⟨t, entries, happend, h, hitems⟩ := hnew.appendAll hnone items
  rw [List.map_nil, List.nil_append] at hitems
  have hfn' : Comb.TotalPreorder (above (t.compareWith (fun _ _ => 0) (some compare)))
      (entries.map Prod.snd) := hitems ▸ hfn
  obtain ⟨t', sorted, h', hperm, hchain, rounds, hrounds⟩ := h.sort hfn' hshrink
  rw [hitems] at hperm
  refine ⟨sorted, hperm, hchain, rounds, fun n hn => ?_⟩
  have hlen : (nodes entries).length = sorted.length := by
    rw [hperm.length_eq, ← hitems, nodes, List.length_map, List.length_map]
  have hpop := h'.popAll
  rw [List.length_zip, hlen, min_self, List.map_snd_zip hlen.ge, hperm.length_eq] at hpop
  rw [sortedItems, happend, ok_bind, hrounds n hn, ok_bind, hpop]

end Czmq.Zlist
