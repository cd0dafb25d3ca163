import Czmq.Base.CombSort
import Czmq.Zlistx.Refinement

/-! `zlistx_sort`. The nodes stay where they are; only their items are exchanged. -/

namespace Czmq

open List Function

/-- `(size_t) ((double) gap / 1.3)`: some function above one, and 0 for 0 and 1. -/
def shrunk (shrink : Nat → Nat) (gap : Nat) : Nat := if 1 < gap then shrink gap else 0

namespace Zlistx

variable {I : Type} {fn : ListCallbacks I} {t : Zlistx I} {a : CursorList I}
  {entries : List (Nat × Option I)}

def jump (t : Zlistx I) : Nat → Nat → Except Fault Nat
  | 0, test => .ok test
  | n + 1, test => do
    let test ← t.nextOf test
    jump t n test

/-- The inner loop of `zlistx_sort`, for at most so many tests of its guard. -/
def combPass : Nat → Zlistx I → Nat → Nat → Bool → Except Fault (Zlistx I × Bool)
  | 0, _, _, _, _ => .error .endlessLoop
  | n + 1, t, base, test, swapped =>
    if base ≠ t.head ∧ test ≠ t.head then do
      let x ← t.itemOf base
      let y ← t.itemOf test
      let (t, swapped) :=
        if 0 < t.fn.comparator x y then
          ({ t with item := update (update t.item base y) test x }, true)
        else (t, swapped)
      let base ← t.nextOf base
      let test ← t.nextOf test
      combPass n t base test swapped
    else .ok (t, swapped)

def sortRound (shrink : Nat → Nat) :
    Zlistx I × Nat × Bool → Except Fault ((Zlistx I × Nat × Bool) ⊕ Zlistx I)
  | (t, gap, swapped) =>
    if 1 < gap ∨ swapped = true then do
      let gap := shrunk shrink gap
      let gap := if gap < 1 then 1 else gap
      let base ← t.nextOf t.head
      let test ← t.jump gap base
      let (t, swapped) ← combPass (t.size + 1) t base test false
      pure (.inl (t, gap, swapped))
    else pure (.inr t)

/-- `zlistx_sort`, for at most `rounds` tests of its outer guard. -/
def sort (shrink : Nat → Nat) (rounds : Nat) (t : Zlistx I) : Except Fault (Zlistx I) :=
  Loop.untilDone .endlessLoop (sortRound shrink) rounds (t, t.size, false)

def above (fn : ListCallbacks I) (x y : Option I) : Bool := 0 < fn.comparator x y

def withItems (t : Zlistx I) (item : Nat → Option I) : Zlistx I := { t with item := item }

lemma jump_eq {xs : List Nat} (hchain : (xs ++ [t.head]).IsChain fun a b => t.next a = b)
    (htag : ∀ x ∈ xs, t.tag x = true) {n : Nat} (hn : n ≤ xs.length) :
    t.jump n (xs.headD t.head) = .ok ((xs.drop n).headD t.head) := by
  induction xs generalizing n with
  | nil =>
    obtain rfl : n = 0 := Nat.le_zero.mp hn
    rfl
  | cons x xs ih =>
    cases n with
    | zero => rfl
    | succ n =>
      rw [cons_append, isChain_cons, Ring.head?_append_singleton] at hchain
      rw [jump, headD_cons, nextOf, if_pos (htag x (mem_cons_self ..)),
        hchain.1 _ rfl]
      exact ih hchain.2 (fun y hy => htag y (mem_cons_of_mem _ hy))
        (Nat.le_of_succ_le_succ hn)

lemma combPass_eq {xs ys : List Nat} (hxs : (xs ++ [t.head]).IsChain fun a b => t.next a = b)
    (hys : (ys ++ [t.head]).IsChain fun a b => t.next a = b)
    (hx : ∀ x ∈ xs, t.tag x = true ∧ x ≠ t.head) (hy : ∀ y ∈ ys, t.tag y = true ∧ y ≠ t.head)
    {n : Nat} (hn : xs.length < n) (m : Nat → Option I) (swapped : Bool) :
    combPass n (t.withItems m) (xs.headD t.head) (ys.headD t.head) swapped =
      .ok (t.withItems (Comb.sweep (above t.fn) (xs.zip ys) (m, swapped)).1,
        (Comb.sweep (above t.fn) (xs.zip ys) (m, swapped)).2) := by
  induction xs generalizing ys n m swapped with
  | nil =>
    obtain ⟨k, rfl⟩ := Nat.exists_eq_add_of_lt hn
    rw [combPass, if_neg (by simp [withItems])]
    rfl
  | cons x xs ih =>
    obtain ⟨k, rfl⟩ : ∃ k, n = k + 1 := ⟨n - 1, by omega⟩
    cases ys with
    | nil =>
      rw [combPass, if_neg (by simp [withItems])]
      rfl
    | cons y ys =>
      obtain ⟨htx, hxh⟩ := hx x (mem_cons_self ..)
      obtain ⟨hty, hyh⟩ := hy y (mem_cons_self ..)
      rw [cons_append, isChain_cons, Ring.head?_append_singleton] at hxs hys
      rw [length_cons] at hn
      have hitem : ∀ z, t.tag z = true → (t.withItems m).itemOf z = .ok (m z) :=
        fun z hz => if_pos hz
      have hnext : ∀ m' z, t.tag z = true → (t.withItems m').nextOf z = .ok (t.next z) :=
        fun m' z hz => if_pos hz
      rw [headD_cons, headD_cons, combPass, if_pos ⟨hxh, hyh⟩, hitem x htx,
        hitem y hty]
      change (match (if 0 < t.fn.comparator (m x) (m y) then
          (t.withItems (update (update m x (m y)) y (m x)), true)
        else (t.withItems m, swapped)) with
        | (t, swapped) => do
          let base ← t.nextOf x
          let test ← t.nextOf y
          combPass k t base test swapped) = _
      rw [Comb.exchange_of_compare t.fn.comparator t.withItems]
      dsimp only
      rw [hnext _ x htx, ok_bind, hnext _ y hty, ok_bind, hxs.1 _ rfl, hys.1 _ rfl,
        ih hxs.2 hys.2 (fun z hz => hx z (mem_cons_of_mem _ hz))
          (fun z hz => hy z (mem_cons_of_mem _ hz)) (by omega)]
      rfl

lemma nextGap_spec {shrink : Nat → Nat}
    (hshrink : Comb.Shrinks shrink) (gap : Nat) :
    1 ≤ (if shrunk shrink gap < 1 then 1 else shrunk shrink gap) ∧
      (1 < gap → (if shrunk shrink gap < 1 then 1 else shrunk shrink gap) < gap) ∧
      (gap ≤ 1 → (if shrunk shrink gap < 1 then 1 else shrunk shrink gap) = 1) := by
  unfold shrunk
  by_cases hgap : 1 < gap
  · obtain ⟨hpos, hlt⟩ := hshrink gap hgap
    rw [if_pos hgap, if_neg (by omega)]
    exact ⟨hpos, fun _ => hlt, fun h => absurd hgap (by omega)⟩
  · rw [if_neg hgap]
    exact ⟨le_rfl, fun h => absurd h hgap, fun _ => rfl⟩

section
variable {shrink : Nat → Nat} {m : Nat → Option I} {gap : Nat} {swapped : Bool}

lemma sortRound_of_guard (h : Holds t entries) (hsize : t.size = entries.length)
    (hguard : 1 < gap ∨ swapped = true) {gap' : Nat}
    (hgap' : (if shrunk shrink gap < 1 then 1 else shrunk shrink gap) = gap')
    (hle : gap' ≤ entries.length) :
    sortRound shrink (t.withItems m, gap, swapped) =
      .ok (.inl (t.withItems (Comb.sweep (above t.fn)
          ((handles entries).zip ((handles entries).drop gap')) (m, false)).1, gap',
        (Comb.sweep (above t.fn)
          ((handles entries).zip ((handles entries).drop gap')) (m, false)).2)) := by
  have hlength : (handles entries).length = entries.length := length_map ..
  have hchain := isChain_next h.ring
  have hnode : ∀ x ∈ handles entries, t.tag x = true ∧ x ≠ t.head := fun x hx =>
    ⟨h.tag_of_mem hx, h.ne_head hx⟩
  have hstart : (t.withItems m).nextOf (t.withItems m).head =
      .ok ((handles entries).headD t.head) := (if_pos h.tag_head).trans (congrArg _ h.next_head)
  have hjump : (t.withItems m).jump gap' ((handles entries).headD t.head) =
      .ok (((handles entries).drop gap').headD t.head) :=
    jump_eq (t := t.withItems m) hchain (fun x hx => (hnode x hx).1) (by omega)
  -- behind the jump, the pointer runs over a suffix of the nodes
  have hsuffix : ((handles entries).drop gap' ++ [t.head]).IsChain fun a b => t.next a = b := by
    rw [← take_append_drop gap' (handles entries), append_assoc] at hchain
    exact hchain.right_of_append
  have hpass := combPass_eq hchain hsuffix hnode
    (fun y hy => hnode y (mem_of_mem_drop hy)) (n := t.size + 1) (by omega) m false
  rw [sortRound, if_pos hguard]
  dsimp only
  rw [hgap', hstart, ok_bind, hjump]
  change (combPass (t.size + 1) (t.withItems m) _ _ false >>= _) = _
  rw [hpass]
  rfl

end

lemma Refines.withItems (h : Refines fn t a) {m : Nat → Option I} (hm : m t.head = none) :
    Refines fn (t.withItems m)
      { a with entries := (handles a.entries).map fun x => (x, m x) } := by
  have hhandles : handles ((handles a.entries).map fun x => (x, m x)) = handles a.entries := by
    rw [handles, map_map]
    exact map_id _
  refine ⟨⟨?_, fun x => ?_, fun e he => ?_, hm⟩, ?_, h.cursor_eq, ?_, h.destroyed_eq, h.fn_eq⟩
  · rw [hhandles]
    exact h.holds.ring
  · rw [hhandles]
    exact h.holds.live x
  · obtain ⟨x, -, rfl⟩ := mem_map.mp he
    rfl
  · rw [length_map, handles, length_map]
    exact h.size_eq
  · rw [hhandles]
    exact h.cursor_mem

lemma Refines.sort (h : Refines fn t a)
    (hfn : Comb.TotalPreorder (above fn) (a.entries.map Prod.snd)) {shrink : Nat → Nat}
    (hshrink : Comb.Shrinks shrink) :
    ∃ t' items, Refines fn t' { a with entries := (handles a.entries).zip items } ∧
      items.Perm (a.entries.map Prod.snd) ∧
      items.IsChain (fun x y => fn.comparator x y ≤ 0) ∧
      ∃ rounds, ∀ n, rounds ≤ n → t.sort shrink n = .ok t' := by
  obtain rfl := h.fn_eq
  have hitems : (handles a.entries).map t.item = a.entries.map Prod.snd := by
    rw [handles, map_map]
    exact map_congr_left h.holds.items
  have hlength : (handles a.entries).length = t.size := by
    rw [handles, length_map, h.size_eq]
  rw [← hitems] at hfn ⊢
  obtain ⟨m, hframe, hperm, hchain, rounds, hrounds⟩ :=
    Comb.exists_sorted Fault.endlessLoop t.withItems h.holds.nodup
      (fun m gap swapped hguard hle => sortRound_of_guard h.holds h.size_eq hguard rfl
        (h.size_eq ▸ hlength ▸ hle))
      (fun m gap swapped hguard => if_neg hguard) (fun t => t.item) (fun _ => rfl) hfn
      fun gap _ => nextGap_spec hshrink gap
  rw [hlength] at hrounds
  refine ⟨t.withItems m, (handles a.entries).map m, ?_, hperm, hchain.imp fun x y hxy => ?_, rounds,
    hrounds⟩
  · rw [← map_prod_left_eq_zip]
    exact h.withItems (by rw [hframe _ fun hh => h.holds.ne_head hh rfl, h.holds.head_item])
  · unfold above at hxy
    simpa using hxy

lemma combPass_withItems {n base test : Nat} {swapped swapped' : Bool} {t t' : Zlistx I}
    (h : combPass n t base test swapped = .ok (t', swapped')) :
    ∃ m, t' = t.withItems m ∧ m t.head = t.item t.head := by
  induction n generalizing t base test swapped with
  | zero => cases h
  | succ n ih =>
    rw [combPass] at h
    split at h
    · next hne =>
      obtain ⟨x, -, h⟩ := bind_eq_ok.mp h
      obtain ⟨y, -, h⟩ := bind_eq_ok.mp h
      split at h
      next t1 swapped1 hswap =>
      obtain ⟨base', -, h⟩ := bind_eq_ok.mp h
      obtain ⟨test', -, h⟩ := bind_eq_ok.mp h
      obtain ⟨m, rfl, hm⟩ := ih h
      split at hswap
      · cases hswap
        refine ⟨m, rfl, hm.trans ?_⟩
        change update (update t.item base y) test x t.head = _
        rw [update_of_ne (Ne.symm hne.2), update_of_ne (Ne.symm hne.1)]
      · cases hswap
        exact ⟨m, rfl, hm⟩
    · cases h
      exact ⟨_, rfl, rfl⟩

lemma Refines.of_sort (h : Refines fn t a) {shrink : Nat → Nat} {rounds : Nat} {t' : Zlistx I}
    (hsort : t.sort shrink rounds = .ok t') : ∃ a', Refines fn t' a' := by
  let same (t' : Zlistx I) : Prop := ∃ m, t' = t.withItems m ∧ m t.head = t.item t.head
  have hitems : same t' := by
    refine Loop.untilDone_invariant (fun s : _ × Nat × Bool => same s.1) same ?_ ⟨_, rfl, rfl⟩ hsort
    rintro ⟨_, gap, swapped⟩ ⟨m, rfl, hm⟩ x hround
    rw [sortRound] at hround
    split at hround
    · obtain ⟨base, -, hround⟩ := bind_eq_ok.mp hround
      obtain ⟨test, -, hround⟩ := bind_eq_ok.mp hround
      obtain ⟨⟨t1, _⟩, hpass, hround⟩ := bind_eq_ok.mp hround
      obtain ⟨m', rfl, hm'⟩ := combPass_withItems hpass
      cases hround
      exact ⟨m', rfl, hm'.trans hm⟩
    · cases hround
      exact ⟨m, rfl, hm⟩
  obtain ⟨m, rfl, hm⟩ := hitems
  exact ⟨_, h.withItems (hm.trans h.holds.head_item)⟩

end Zlistx

end Czmq
