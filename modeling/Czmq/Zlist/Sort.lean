import Czmq.Zlist.Invariant
import Czmq.Zlistx.Sort

/-! `zlist_sort`, and the correctness of both sorts. -/

namespace Czmq

open List Zlistx

namespace Zlist

variable {I : Type} {t : Zlist I} {entries : List (Nat × I)}

def jump (t : Zlist I) : Nat → Option Nat → Except Fault (Option Nat)
  | 0, test => .ok test
  | _ + 1, none => .error .useAfterFree
  | n + 1, some test => do
    let test ← t.nextOf test
    jump t n test

/-- The inner loop of `zlist_sort`, for at most so many tests of its guard. -/
def combPass (compare : I → I → Int) :
    Nat → Zlist I → Option Nat → Option Nat → Bool → Except Fault (Zlist I × Bool)
  | 0, _, _, _, _ => .error .endlessLoop
  | n + 1, t, some base, some test, swapped => do
    let x ← t.itemOf base
    let y ← t.itemOf test
    let (t, swapped) :=
      if 0 < compare x y then
        ({ t with item := Function.update (Function.update t.item base y) test x }, true)
      else (t, swapped)
    let base ← t.nextOf base
    let test ← t.nextOf test
    combPass compare n t base test swapped
  | _ + 1, t, _, _, swapped => .ok (t, swapped)

def sortRound (compare : I → I → Int) (shrink : Nat → Nat) :
    Zlist I × Nat × Bool → Except Fault ((Zlist I × Nat × Bool) ⊕ Zlist I)
  | (t, gap, swapped) =>
    if 1 < gap ∨ swapped = true then do
      let gap := if 1 < gap then shrunk shrink gap else gap
      let test ← t.jump gap t.head
      let (t, swapped) ← combPass compare (t.size + 1) t t.head test false
      pure (.inl (t, gap, swapped))
    else pure (.inr t)

/-- The comparison of `zlist_sort`: the one given, else that of the list, else `strcmp`. -/
def compareWith (strcmp : I → I → Int) (compareFn : Option (I → I → Int)) (t : Zlist I) :
    I → I → Int := (compareFn.or t.compareFn).getD strcmp

/-- `zlist_sort`, for at most `rounds` tests of its outer guard. -/
def sort (strcmp : I → I → Int) (compareFn : Option (I → I → Int)) (shrink : Nat → Nat)
    (rounds : Nat) (t : Zlist I) : Except Fault (Zlist I) :=
  Loop.untilDone .endlessLoop (sortRound (t.compareWith strcmp compareFn) shrink) rounds
    (t, t.size, false)

def withItems (t : Zlist I) (item : Nat → I) : Zlist I := { t with item := item }

def above (compare : I → I → Int) (x y : I) : Bool := 0 < compare x y

lemma jump_eq {xs : List Nat} {p : Option Nat} (hlinked : Chain.Linked t.next p xs)
    (hused : ∀ x ∈ xs, t.used x = true) {n : Nat} (hn : n ≤ xs.length) :
    ∃ q, t.jump n p = .ok q ∧ Chain.Linked t.next q (xs.drop n) := by
  induction xs generalizing p n with
  | nil =>
    obtain rfl : n = 0 := Nat.le_zero.mp hn
    exact ⟨p, rfl, hlinked⟩
  | cons x xs ih =>
    cases n with
    | zero => exact ⟨p, rfl, hlinked⟩
    | succ n =>
      obtain ⟨rfl, hrest⟩ := hlinked
      rw [jump, nextOf, if_pos (hused x (mem_cons_self ..))]
      exact ih hrest (fun y hy => hused y (mem_cons_of_mem _ hy)) (Nat.le_of_succ_le_succ hn)

lemma combPass_eq (compare : I → I → Int) {xs ys : List Nat} {p q : Option Nat}
    (hxs : Chain.Linked t.next p xs) (hys : Chain.Linked t.next q ys)
    (hx : ∀ x ∈ xs, t.used x = true) (hy : ∀ y ∈ ys, t.used y = true) {n : Nat}
    (hn : xs.length < n) (m : Nat → I) (swapped : Bool) :
    combPass compare n (t.withItems m) p q swapped =
      .ok (t.withItems (Comb.sweep (above compare) (xs.zip ys) (m, swapped)).1,
        (Comb.sweep (above compare) (xs.zip ys) (m, swapped)).2) := by
  induction xs generalizing ys p q n m swapped with
  | nil =>
    obtain ⟨k, rfl⟩ := Nat.exists_eq_add_of_lt hn
    obtain rfl : p = none := hxs
    rfl
  | cons x xs ih =>
    obtain ⟨k, rfl⟩ : ∃ k, n = k + 1 := ⟨n - 1, by omega⟩
    obtain ⟨rfl, hxs⟩ := hxs
    cases ys with
    | nil =>
      obtain rfl : q = none := hys
      rfl
    | cons y ys =>
      obtain ⟨rfl, hys⟩ := hys
      rw [length_cons] at hn
      have hux := hx x (mem_cons_self ..)
      have huy := hy y (mem_cons_self ..)
      have hitem : ∀ z, t.used z = true → (t.withItems m).itemOf z = .ok (m z) :=
        fun z hz => if_pos hz
      have hnext : ∀ m' z, t.used z = true → (t.withItems m').nextOf z = .ok (t.next z) :=
        fun m' z hz => if_pos hz
      rw [combPass, hitem x hux, hitem y huy]
      change (match (if 0 < compare (m x) (m y) then
          (t.withItems (Function.update (Function.update m x (m y)) y (m x)), true)
        else (t.withItems m, swapped)) with
        | (t, swapped) => do
          let base ← t.nextOf x
          let test ← t.nextOf y
          combPass compare k t base test swapped) = _
      rw [Comb.exchange_of_compare compare t.withItems]
      dsimp only
      rw [hnext _ x hux, ok_bind, hnext _ y huy, ok_bind,
        ih hxs hys (fun z hz => hx z (mem_cons_of_mem _ hz))
          (fun z hz => hy z (mem_cons_of_mem _ hz)) (by omega)]
      rfl

variable {shrink : Nat → Nat}

lemma nextGap_spec (hshrink : Comb.Shrinks shrink)
    {gap : Nat} (hpos : 1 ≤ gap) :
    1 ≤ (if 1 < gap then shrunk shrink gap else gap) ∧
      (1 < gap → (if 1 < gap then shrunk shrink gap else gap) < gap) ∧
      (gap ≤ 1 → (if 1 < gap then shrunk shrink gap else gap) = 1) := by
  by_cases hgap : 1 < gap
  · obtain ⟨hshrunk, hlt⟩ := hshrink gap hgap
    rw [if_pos hgap, shrunk, if_pos hgap]
    exact ⟨hshrunk, fun _ => hlt, fun h => absurd hgap (by omega)⟩
  · rw [if_neg hgap]
    exact ⟨hpos, fun h => absurd h hgap, fun h => by omega⟩

lemma sortRound_of_guard {compare : I → I → Int} {m : Nat → I} {gap : Nat}
    {swapped : Bool} (h : Holds t entries) (hguard : 1 < gap ∨ swapped = true) {gap' : Nat}
    (hgap' : (if 1 < gap then shrunk shrink gap else gap) = gap') (hle : gap' ≤ entries.length) :
    sortRound compare shrink (t.withItems m, gap, swapped) =
      .ok (.inl (t.withItems (Comb.sweep (above compare)
          ((nodes entries).zip ((nodes entries).drop gap')) (m, false)).1, gap',
        (Comb.sweep (above compare)
          ((nodes entries).zip ((nodes entries).drop gap')) (m, false)).2)) := by
  have hlength : (nodes entries).length = entries.length := length_map ..
  have hused : ∀ x ∈ nodes entries, t.used x = true := fun x hx => (h.live x).mpr hx
  have hsize := h.size_eq
  -- the gap is at most the length, so the jump does not run off the chain
  obtain ⟨q, hjump, hq⟩ := jump_eq (t := t.withItems m) h.linked hused (n := gap') (by omega)
  have hpass := combPass_eq compare h.linked hq hused
    (fun y hy => hused y (mem_of_mem_drop hy)) (n := t.size + 1) (by omega) m false
  rw [sortRound, if_pos hguard]
  rw [hgap']
  change ((t.withItems m).jump gap' t.head >>= _) = _
  rw [hjump]
  change (combPass compare (t.size + 1) (t.withItems m) t.head q false >>= _) = _
  rw [hpass]
  rfl

lemma Holds.withItems (h : Holds t entries) (m : Nat → I) :
    Holds (t.withItems m) ((nodes entries).zip ((nodes entries).map m)) := by
  have hnodes : nodes ((nodes entries).zip ((nodes entries).map m)) = nodes entries :=
    map_fst_zip (by simp)
  refine ⟨by rw [hnodes]; exact h.linked, by rw [hnodes]; exact h.nodup,
    fun x => by rw [hnodes]; exact h.live x, fun e he => ?_, by rw [hnodes]; exact h.tail_eq, ?_,
    by rw [hnodes]; exact h.cursor_mem⟩
  · rw [← map_prod_left_eq_zip] at he
    obtain ⟨x, -, rfl⟩ := mem_map.mp he
    rfl
  · change t.size = _
    rw [length_zip, length_map, Nat.min_self, nodes, length_map, h.size_eq]

lemma Holds.sort (h : Holds t entries) {strcmp : I → I → Int}
    {compareFn : Option (I → I → Int)}
    (hfn : Comb.TotalPreorder (above (t.compareWith strcmp compareFn)) (entries.map Prod.snd))
    (hshrink : Comb.Shrinks shrink) :
    ∃ t' items, Holds t' ((nodes entries).zip items) ∧ items.Perm (entries.map Prod.snd) ∧
      items.IsChain (fun x y => t.compareWith strcmp compareFn x y ≤ 0) ∧
      ∃ rounds, ∀ n, rounds ≤ n → t.sort strcmp compareFn shrink n = .ok t' := by
  have hitems : (nodes entries).map t.item = entries.map Prod.snd := by
    rw [nodes, map_map]
    exact map_congr_left h.items
  have hlength : (nodes entries).length = t.size := by
    rw [nodes, length_map, h.size_eq]
  rw [← hitems] at hfn ⊢
  obtain ⟨m, -, hperm, hchain, rounds, hrounds⟩ :=
    Comb.exists_sorted Fault.endlessLoop t.withItems h.nodup
      (fun m gap swapped hguard hle => sortRound_of_guard h hguard rfl (h.size_eq ▸ hlength ▸ hle))
      (fun m gap swapped hguard => if_neg hguard) Zlist.item (fun _ => rfl) hfn
      fun gap hpos => nextGap_spec hshrink hpos
  rw [hlength] at hrounds
  refine ⟨t.withItems m, (nodes entries).map m, h.withItems m, hperm, hchain.imp fun x y hxy => ?_,
    rounds, hrounds⟩
  unfold above at hxy
  simpa using hxy

end Zlist

/-- Both sorts, for every list and every comparator that orders its items. -/
theorem sort_sorted (shrink : Nat → Nat) (hshrink : ∀ g, 1 < g → 1 ≤ shrink g ∧ shrink g < g)
    (I : Type) :
    (∀ (fn : ListCallbacks I) (t : Zlistx I) (a : CursorList I), Refines fn t a →
      Comb.TotalPreorder (above fn) (a.entries.map Prod.snd) →
      ∃ t' items,
        (∃ rounds, ∀ n, rounds ≤ n → t.sort shrink n = .ok t') ∧
        Refines fn t' { a with entries := (handles a.entries).zip items } ∧
        items.Perm (a.entries.map Prod.snd) ∧
        items.IsChain fun x y => fn.comparator x y ≤ 0) ∧
    ∀ (t : Zlist I) (entries : List (Nat × I)) (strcmp : I → I → Int)
      (compareFn : Option (I → I → Int)), t.Holds entries →
      Comb.TotalPreorder (Zlist.above (t.compareWith strcmp compareFn)) (entries.map Prod.snd) →
      ∃ t' items,
        (∃ rounds, ∀ n, rounds ≤ n → t.sort strcmp compareFn shrink n = .ok t') ∧
        Zlist.Holds t' ((Zlist.nodes entries).zip items) ∧
        items.Perm (entries.map Prod.snd) ∧
        items.IsChain fun x y => t.compareWith strcmp compareFn x y ≤ 0 := by
  refine ⟨fun fn t a h hfn => ?_, fun t entries strcmp compareFn h hfn => ?_⟩
  · obtain ⟨t', items, hr, hperm, hchain, hrounds⟩ := h.sort hfn hshrink
    exact ⟨t', items, hrounds, hr, hperm, hchain⟩
  · obtain ⟨t', items, hh, hperm, hchain, hrounds⟩ := h.sort hfn hshrink
    exact ⟨t', items, hrounds, hh, hperm, hchain⟩

def shrinkExactly (gap : Nat) : Nat := gap * 10 / 13

lemma shrinkExactly_spec (g : Nat) (hg : 1 < g) : 1 ≤ shrinkExactly g ∧ shrinkExactly g < g := by
  unfold shrinkExactly
  omega

def difference (x y : Nat) : Int := x - y

theorem sort_sorted_three_items :
    (∃ (t t' : Zlistx Nat) (a : CursorList Nat) (items : List (Option Nat)) (rounds : Nat),
      Refines byValue t a ∧
      a.entries = [(1, some 20), (2, some 5), (3, some 10)] ∧
      t.sort shrinkExactly rounds = .ok t' ∧
      Refines byValue t' { a with entries := [1, 2, 3].zip items } ∧
      items.Perm [some 20, some 5, some 10] ∧
      items.IsChain fun x y => byValue.comparator x y ≤ 0) ∧
    ∃ (t t' : Zlist Nat) (items : List Nat) (rounds : Nat),
      t.Holds [(1, 20), (2, 5)] ∧
      t.sort (fun _ _ => 0) (some difference) shrinkExactly rounds = .ok t' ∧
      t'.Holds ([1, 2].zip items) ∧ items.Perm [20, 5] ∧
      items.IsChain fun x y => difference x y ≤ 0 := by
  obtain ⟨hzlistx, hzlist⟩ := sort_sorted shrinkExactly shrinkExactly_spec Nat
  constructor
  · have hvalid : Machine.StepsMeet listStep Valid
        (new blank 0 byValue)
        [.addEnd 1 (some 20), .addEnd 2 (some 5), .addEnd 3 (some 10)] :=
      Machine.stepsMeet_of_checkSteps (by decide +kernel)
    obtain ⟨t, -, hr⟩ := Machine.run_refines (CursorList.step byValue)
      (fun _ _ _ h hv => h.step hv) (refines_new blank 0 byValue) hvalid
    have hvalue : ∀ x y, above byValue x y = true ↔ (y.getD 0 : Int) < x.getD 0 := by
      intro x y
      rw [above, decide_eq_true_iff]
      exact sub_pos
    obtain ⟨t', items, ⟨rounds, hsort⟩, hr', hperm, hchain⟩ :=
      hzlistx _ t _ hr (Comb.totalPreorder_of_key hvalue _)
    exact ⟨t, t', _, items, rounds, hr, rfl, hsort rounds le_rfl, hr', hperm, hchain⟩
  · have hnew : (Zlist.new (fun _ => none) fun _ => 0 : Zlist Nat).used 1 = false := rfl
    obtain ⟨t₁, -, h₁⟩ := (Zlist.holds_new (fun _ => none) fun _ => 0).append hnew id 20
    have hunused : t₁.used 2 = false := by
      rw [← Bool.not_eq_true, h₁.live]
      decide
    obtain ⟨t, -, h⟩ := h₁.append hunused id 5
    have hcopied : t₁.copied id 5 = 5 := ite_self ..
    rw [hcopied] at h
    have hvalue : ∀ x y, Zlist.above difference x y = true ↔ (y : Int) < x := by
      intro x y
      rw [Zlist.above, decide_eq_true_iff]
      exact sub_pos
    obtain ⟨t', items, ⟨rounds, hsort⟩, h', hperm, hchain⟩ :=
      hzlist t _ (fun _ _ => 0) (some difference) h (Comb.totalPreorder_of_key hvalue _)
    exact ⟨t, t', items, rounds, h, hsort rounds le_rfl, h', hperm, hchain⟩

end Czmq
