import Czmq.Zlist.Sort
import Czmq.Zlistx.Order

/-! What a handle denotes. A handle keeps its item through all calls that link nodes in, out or
elsewhere; `zlistx_sort` exchanges items between nodes, so that only a list in order keeps them. -/

namespace Czmq.Zlistx

open List Machine CursorList

variable {I : Type} {fn : ListCallbacks I} {t t' : Zlistx I} {a : CursorList I} {shrink : Nat → Nat}
  {h : Nat} {x : Option I}

inductive ListCall (I : Type) where
  | on (op : ListOp I)
  | sort (rounds : Nat)
  | set (fn : ListCallbacks I)
  | item
  | cursor
  | size
  | handleItem (handle : Option Nat)

def handleItem (t : Zlistx I) : Option Nat → Except Fault (Option I)
  | none => .ok none
  | some node => t.itemOf node

def item? (t : Zlistx I) : Except Fault (Option I) :=
  if t.cursor = t.head then .ok none else t.itemOf t.cursor

def cursor? (t : Zlistx I) : Option Nat := if t.cursor = t.head then none else some t.cursor

def callStep (shrink : Nat → Nat) (t : Zlistx I) : ListCall I → Except Fault (ListResult I × Zlistx I)
  | .on op => t.listStep op
  | .sort rounds => do
    let t ← t.sort shrink rounds
    pure (.void, t)
  | .set fn => .ok (.void, { t with fn := fn })
  | .item => do
    let item ← t.item?
    pure (.ptr item, t)
  | .cursor => .ok (.handle t.cursor?, t)
  | .size => .ok (.rc t.size, t)
  | .handleItem handle => do
    let item ← t.handleItem handle
    pure (.ptr item, t)

def CallValid (t : Zlistx I) : ListCall I → Prop
  | .on op => t.Valid op
  | .handleItem handle => ∀ h ∈ handle, t.Live h
  | _ => True

def contents (t : Zlistx I) : List (Option I) :=
  (range t.size).map fun i => t.item (t.next^[i + 1] t.head)

def InOrder (t : Zlistx I) : Prop := t.contents.Pairwise fun x y => t.fn.comparator x y ≤ 0

def SortsInOrder (t : Zlistx I) : ListCall I → Prop
  | .sort _ => t.InOrder
  | _ => True

def Keeps (h : Nat) (t : Zlistx I) : ListCall I → Prop
  | .on (.detach handle) | .on (.delete handle) => handle ≠ some h ∧ (handle = none → t.next t.head ≠ h)
  | .on .purge => False
  | _ => True

def Adds (node : Nat) (item : Option I) : ListOp I → Prop
  | .addStart n i | .addEnd n i | .insert n i _ => n = node ∧ i = item
  | _ => False

lemma iterate_next {xs : List Nat} {head : Nat} {next : Nat → Nat}
    (hchain : (xs ++ [head]).IsChain fun a b => next a = b) (hhead : next head = xs.headD head) (i : Nat)
    (hi : i < xs.length) : next^[i + 1] head = xs[i] := by
  induction i with
  | zero =>
    cases xs with
    | nil => exact absurd hi (Nat.not_lt_zero 0)
    | cons x xs => exact hhead
  | succ i ih =>
    rw [Function.iterate_succ_apply', ih (by omega)]
    have hlink := isChain_iff_getElem.mp hchain i (by simp; omega)
    rw [getElem_append_left (by omega), getElem_append_left (by omega)] at hlink
    exact hlink

lemma Refines.contents_eq (h : Refines fn t a) : t.contents = a.entries.map Prod.snd := by
  have hlength : (handles a.entries).length = a.entries.length := length_map ..
  apply ext_getElem
  · rw [contents, length_map, length_range, length_map, h.size_eq]
  · intro i hi hi'
    rw [length_map] at hi'
    simp only [contents, getElem_map, getElem_range]
    rw [iterate_next (isChain_next h.holds.ring) h.holds.next_head i (by omega)]
    simp only [handles, getElem_map]
    exact h.holds.items _ (getElem_mem _)

lemma sweep_of_pairwise {gt : Option I → Option I → Bool} {m : Nat → Option I} {hs : List Nat}
    (hm : (hs.map m).Pairwise fun x y => gt x y = false) (gap : Nat) (swapped : Bool) (hgap : 1 ≤ gap) :
    Comb.sweep gt (hs.zip (hs.drop gap)) (m, swapped) = (m, swapped) := by
  have hpair : ∀ p ∈ hs.zip (hs.drop gap), gt (m p.1) (m p.2) = false := by
    intro p hp
    obtain ⟨i, hi, rfl⟩ := mem_iff_getElem.mp hp
    rw [pairwise_map, pairwise_iff_getElem] at hm
    rw [getElem_zip, getElem_drop]
    apply hm
    omega
  revert hpair
  generalize hs.zip (hs.drop gap) = ps
  intro hpair
  induction ps with
  | nil => rfl
  | cons p ps ih =>
    rw [Comb.sweep_cons, Comb.exchange, if_neg]
    · exact ih fun q hq => hpair q (mem_cons_of_mem _ hq)
    · rw [hpair p (mem_cons_self ..)]
      exact Bool.false_ne_true

lemma sortRound_inOrder (h : Refines fn t a) (ht : t.InOrder) {gap : Nat} {gap' : Nat}
    (hguard : 1 < gap) (hgap' : (if shrunk shrink gap < 1 then 1 else shrunk shrink gap) = gap')
    (hpos : 1 ≤ gap') (hle : gap' ≤ a.entries.length) :
    sortRound shrink (t, gap, false) = .ok (.inl (t, gap', false)) := by
  have hround : sortRound shrink (t.withItems t.item, gap, false) = _ :=
    sortRound_of_guard h.holds h.size_eq (.inl hguard) hgap' hle
  have hitems : (handles a.entries).map t.item = t.contents := by
    rw [h.contents_eq, handles, map_map]
    exact map_congr_left h.holds.items
  have hvalues : ((handles a.entries).map t.item).Pairwise fun x y => above t.fn x y = false := by
    rw [hitems]
    exact ht.imp fun hxy => above_eq_false_iff.mpr hxy
  rw [sweep_of_pairwise hvalues gap' false hpos] at hround
  exact hround

lemma Refines.sort_inOrder (h : Refines fn t a) (ht : t.InOrder)
    (hshrink : Comb.Shrinks shrink) :
    ∀ n, t.size < n → t.sort shrink n = .ok t := by
  -- the gap goes down with every round
  have hrounds : ∀ n gap, gap < n → gap ≤ t.size →
      Loop.untilDone .endlessLoop (sortRound shrink) n (t, gap, false) = .ok t := by
    intro n
    induction n with
    | zero => exact fun gap hgap => absurd hgap (Nat.not_lt_zero gap)
    | succ n ih =>
      intro gap hgap hsize
      by_cases hguard : 1 < gap
      · obtain ⟨hpos, hless, -⟩ := nextGap_spec hshrink gap
        have hlt := hless hguard
        rw [Loop.untilDone_inl (sortRound_inOrder h ht hguard rfl hpos (by rw [← h.size_eq]; omega))]
        exact ih _ (by omega) (by omega)
      · rw [Loop.untilDone_inr]
        exact if_neg fun hor => hor.elim hguard Bool.false_ne_true
  exact fun n hn => hrounds n t.size hn le_rfl

/-! ## Handles through a run -/

def Denotes (t : Zlistx I) (h : Nat) (x : Option I) : Prop :=
  ∃ a, Refines t.fn t a ∧ (h, x) ∈ a.entries

lemma Denotes.handleItem (hx : t.Denotes h x) : t.handleItem (some h) = .ok x := by
  obtain ⟨a, hr, hmem⟩ := hx
  rw [Zlistx.handleItem, itemOf, if_pos (hr.holds.tag_of_mem (mem_handles hmem)), hr.holds.items _ hmem]

lemma Denotes.detach (hx : t.Denotes h x) : ∃ t', t.detach (some h) = .ok (x, t') := by
  obtain ⟨a, hr, hmem⟩ := hx
  obtain ⟨es, fs, hsplit, hn⟩ := hr.holds.split_of_mem hmem
  obtain ⟨t', he, -⟩ := hr.detachAt (target.eq_1 a (some h)) hsplit hn
  exact ⟨t', he⟩

lemma mem_of_touched {op : ListOp I} (hr : Refines fn t a) (hv : t.Valid op)
    (hmem : (h, x) ∈ a.entries) (hkeep : Keeps h t (.on op)) (htouched : h ∈ a.touched op) :
    (h, x) ∈ (a.step fn op).2.entries := by
  have htag : t.tag h = true := hr.holds.tag_of_mem (mem_handles hmem)
  have hnew : ∀ {node}, t.tag node = false → h ∈ [node] → False := by
    intro node hnode hh
    rw [mem_singleton.mp hh, hnode] at htag
    exact Bool.false_ne_true htag
  have hat : a.itemAt h = x := by
    obtain ⟨es, fs, hsplit, hn⟩ := hr.holds.split_of_mem hmem
    exact itemAt_eq hsplit hn
  have htarget : ∀ {handle : Option Nat}, handle ≠ some h →
      (handle = none → t.next t.head ≠ h) → h ∈ (a.target handle).toList → False := by
    intro handle hne hfirst hh
    rw [Option.mem_toList] at hh
    cases handle with
    | some y => exact hne hh
    | none =>
      apply hfirst rfl
      rw [hr.holds.next_head, headD_handles]
      exact congrArg (Option.getD · t.head) hh
  cases op with
  | addStart node item | addEnd node item | insert node item lowValue =>
    exact (hnew hv.1 htouched).elim
  | moveStart y =>
    obtain rfl := mem_singleton.mp htouched
    exact hat ▸ mem_cons_self ..
  | moveEnd y =>
    obtain rfl := mem_singleton.mp htouched
    exact hat ▸ mem_append_right _ (mem_singleton_self _)
  | reorder y lowValue =>
    obtain rfl := mem_singleton.mp htouched
    exact (perm_place ..).mem_iff.mpr (hat ▸ mem_cons_self ..)
  | detach handle | delete handle => exact (htarget hkeep.1 hkeep.2 htouched).elim
  | purge => exact hkeep.elim
  | first | next | prev | last | head | tail | find => exact absurd htouched not_mem_nil

lemma mem_step {op : ListOp I} (hr : Refines fn t a) (hv : t.Valid op) (hmem : (h, x) ∈ a.entries)
    (hkeep : Keeps h t (.on op)) : (h, x) ∈ (a.step fn op).2.entries := by
  by_cases htouched : h ∈ a.touched op
  · exact mem_of_touched hr hv hmem hkeep htouched
  · have hother : (h, x) ∈ others (a.touched op) a.entries :=
      mem_filter.mpr ⟨hmem, decide_eq_true htouched⟩
    rw [← step_others fn] at hother
    exact (mem_filter.mp hother).1

lemma Refines.callStep {call : ListCall I} {r : ListResult I} (hr : Refines t.fn t a)
    (hv : t.CallValid call) (hstep : callStep shrink t call = .ok (r, t')) :
    ∃ a', Refines t'.fn t' a' ∧ (Comb.Shrinks shrink → t.SortsInOrder call →
      ∀ h x, (h, x) ∈ a.entries → Keeps h t call → (h, x) ∈ a'.entries) := by
  cases call with
  | on op =>
    obtain ⟨t1, he, hr1⟩ := hr.step hv
    cases he.symm.trans hstep
    refine ⟨_, hr1.fn_eq ▸ hr1, fun _ _ h x hmem hkeep => ?_⟩
    rw [hr1.fn_eq]
    exact mem_step hr hv hmem hkeep
  | sort rounds =>
    obtain ⟨t1, hsort, hstep⟩ := bind_eq_ok.mp hstep
    cases hstep
    by_cases hsorts : Comb.Shrinks shrink ∧ t.InOrder
    · have hmore : t.sort shrink (max rounds (t.size + 1)) = .ok t' :=
        Loop.untilDone_mono hsort (le_max_left ..)
      rw [hr.sort_inOrder hsorts.2 hsorts.1 _ (Nat.lt_of_succ_le (le_max_right ..))] at hmore
      cases hmore
      exact ⟨a, hr, fun _ _ h x hmem _ => hmem⟩
    · obtain ⟨a', hr'⟩ := hr.of_sort hsort
      exact ⟨a', hr'.fn_eq ▸ hr', fun hshrink hin => absurd ⟨hshrink, hin⟩ hsorts⟩
  | set fn =>
    cases hstep
    refine ⟨a, ?_, fun _ _ h x hmem _ => hmem⟩
    exact ⟨hr.holds.congr rfl rfl, hr.size_eq, hr.cursor_eq, hr.cursor_mem, hr.destroyed_eq, rfl⟩
  | item | handleItem handle =>
    obtain ⟨y, -, hstep⟩ := bind_eq_ok.mp hstep
    cases hstep
    exact ⟨a, hr, fun _ _ h x hmem _ => hmem⟩
  | cursor | size =>
    cases hstep
    exact ⟨a, hr, fun _ _ h x hmem _ => hmem⟩

lemma exists_refines_run {memory : Heap I} {head : Nat} {calls : List (ListCall I)}
    {rs : List (ListResult I)}
    (hvalid : StepsMeet (Zlistx.callStep shrink) CallValid (new memory head fn) calls)
    (hrun : run (Zlistx.callStep shrink) (new memory head fn) calls = .ok (rs, t)) :
    ∃ a, Refines t.fn t a := by
  refine hvalid.run_invariant (fun t => ∃ a, Refines t.fn t a) ?_ ⟨_, refines_new memory head fn⟩ hrun
  rintro s call r s' ⟨a, hr⟩ hv hstep
  obtain ⟨a', hr', -⟩ := hr.callStep hv hstep
  exact ⟨a', hr'⟩

lemma Refines.adds {op : ListOp I} {r : ListResult I} {node : Nat} {item : Option I}
    (hr : Refines t.fn t a) (hv : t.Valid op) (hop : Adds node item op)
    (hstep : t.listStep op = .ok (r, t')) :
    r = .handle (some node) ∧ t'.Denotes node (t.fn.dup item) := by
  obtain ⟨t1, he, hr1⟩ := hr.step hv
  cases he.symm.trans hstep
  have hmem : (node, t.fn.dup item) ∈ (a.step t.fn op).2.entries ∧
      (a.step t.fn op).1 = .handle (some node) := by
    cases op with
    | addStart n i =>
      obtain ⟨rfl, rfl⟩ := hop
      exact ⟨mem_cons_self .., rfl⟩
    | addEnd n i =>
      obtain ⟨rfl, rfl⟩ := hop
      exact ⟨mem_append_right _ (mem_singleton_self _), rfl⟩
    | insert n i lowValue =>
      obtain ⟨rfl, rfl⟩ := hop
      exact ⟨(perm_place ..).mem_iff.mpr (mem_cons_self ..), rfl⟩
    | first | next | prev | last | head | tail | find | detach | delete | moveStart | moveEnd | reorder
    | purge => exact hop.elim
  refine ⟨hmem.2, _, hr1.fn_eq ▸ hr1, ?_⟩
  rw [hr1.fn_eq]
  exact hmem.1

/-- A call is valid, and a sort is of a list in order. -/
def Careful (t : Zlistx I) (call : ListCall I) : Prop := t.CallValid call ∧ t.SortsInOrder call

/-- In every run of such calls, a handle denotes its item until the node is detached or deleted. -/
theorem handle_denotes_item (hshrink : ∀ g, 1 < g → 1 ≤ shrink g ∧ shrink g < g) {memory : Heap I}
    {head node : Nat} {pre post : List (ListCall I)} {op : ListOp I} {item : Option I}
    {rs₀ rs : List (ListResult I)} {r : ListResult I} {t₀ t₁ : Zlistx I}
    (hmeet : StepsMeet (callStep shrink) Careful (new memory head fn) (pre ++ .on op :: post))
    (hop : Adds node item op) (hpre : run (callStep shrink) (new memory head fn) pre = .ok (rs₀, t₀))
    (hadd : callStep shrink t₀ (.on op) = .ok (r, t₁))
    (hpost : run (callStep shrink) t₁ post = .ok (rs, t))
    (hkeep : StepsMeet (callStep shrink) (Keeps node) t₁ post) :
    r = .handle (some node) ∧ t.handleItem (some node) = .ok (t₀.fn.dup item) ∧
      ∃ t', t.detach (some node) = .ok (t₀.fn.dup item, t') := by
  obtain ⟨a, hr⟩ := exists_refines_run (hmeet.left.imp fun _ _ h => h.1) hpre
  have hrest := hmeet.right hpre
  obtain ⟨hanswer, hdenotes⟩ := hr.adds hrest.head.1 hop hadd
  -- every later call is valid, and keeps the node
  have hboth : StepsMeet (callStep shrink) (fun t call => t.Careful call ∧ Keeps node t call) t₁
      post := fun pre call post he rs s hrun =>
    ⟨(hrest.tail hadd) pre call post he rs s hrun, hkeep pre call post he rs s hrun⟩
  have hlast : t.Denotes node (t₀.fn.dup item) := by
    refine hboth.run_invariant (fun t => t.Denotes node (t₀.fn.dup item)) ?_ hdenotes hpost
    rintro s call r s' ⟨a, hr, hmem⟩ ⟨⟨hv, hsorts⟩, hkeeps⟩ hstep
    obtain ⟨a', hr', hkept⟩ := hr.callStep hv hstep
    exact ⟨a', hr', hkept hshrink hsorts node _ hmem hkeeps⟩
  exact ⟨hanswer, hlast.handleItem, hlast.detach⟩

instance (call : ListCall I) : Decidable (t.Careful call) :=
  match call with
  | .on op => inferInstanceAs (Decidable (t.Valid op ∧ True))
  | .sort _ => inferInstanceAs (Decidable (True ∧ t.contents.Pairwise fun x y => t.fn.comparator x y ≤ 0))
  | .handleItem handle => inferInstanceAs (Decidable ((∀ h ∈ handle, t.Live h) ∧ True))
  | .set _ | .item | .cursor | .size => inferInstanceAs (Decidable (True ∧ True))

instance (h : Nat) (call : ListCall I) : Decidable (Keeps h t call) := by
  unfold Keeps
  split <;> infer_instance

/-- Two items in order, which stay with their handles. -/
theorem handle_denotes_item_in_order : ∃ rs₀ t₀ r t₁ rs t,
    run (callStep shrinkExactly) (new blank 0 byValue) [.on (.addEnd 1 (some 20))] = .ok (rs₀, t₀) ∧
      callStep shrinkExactly t₀ (.on (.addStart 2 (some 5))) = .ok (r, t₁) ∧
      run (callStep shrinkExactly) t₁ [.sort 5, .on (.moveEnd 2), .on (.delete (some 1))] =
        .ok (rs, t) ∧
      t.handleItem (some 2) = .ok (some 5) ∧ ∃ t', t.detach (some 2) = .ok (some 5, t') := by
  have hmeet : StepsMeet (callStep shrinkExactly) Careful (new blank 0 byValue)
      ([.on (.addEnd 1 (some 20))] ++ .on (.addStart 2 (some 5)) ::
        [.sort 5, .on (.moveEnd 2), .on (.delete (some 1))]) :=
    stepsMeet_of_checkSteps (by decide +kernel)
  refine ⟨_, _, _, _, _, _, rfl, rfl, rfl, ?_⟩
  refine (handle_denotes_item shrinkExactly_spec hmeet ⟨rfl, rfl⟩ rfl rfl rfl ?_).2
  exact stepsMeet_of_checkSteps (by decide +kernel)

/-- After a sort, the handle of 20 is that of 5. -/
theorem handleItem_after_sort :
    (run (callStep shrinkExactly) (new blank 0 byValue) [.on (.addEnd 1 (some 20)),
      .on (.addEnd 2 (some 5)), .handleItem (some 1), .sort 5, .handleItem (some 1),
      .on (.detach (some 1))]).map Prod.fst =
      .ok [.handle (some 1), .handle (some 2), .ptr (some 20), .void, .ptr (some 5), .ptr (some 5)] := by
  decide +kernel

def detachCur (t : Zlistx I) : Except Fault (Option I × Zlistx I) := t.detach t.cursor?

/-- The item at the cursor is detached, and nothing where there is none. -/
def OnlyAtCursor (t : Zlistx I) : Prop :=
  ∃ item t', t.detachCur = .ok (item, t') ∧
    match t.cursor? with
    | none => item = none ∧ t' = t
    | some h => ∃ es fs, Holds t (es ++ (h, item) :: fs) ∧ Holds t' (es ++ fs)

lemma Refines.cursor?_eq (hr : Refines fn t a) : t.cursor? = a.cursor := by
  rw [cursor?, hr.cursor_eq]
  cases hc : a.cursor with
  | none => exact if_pos rfl
  | some h => exact if_neg (hr.holds.ne_head (hr.cursor_mem h hc))

theorem onlyAtCursor_iff {memory : Heap I} {head : Nat} {calls : List (ListCall I)}
    {rs : List (ListResult I)} (hvalid : StepsMeet (callStep shrink) CallValid (new memory head fn) calls)
    (hrun : run (callStep shrink) (new memory head fn) calls = .ok (rs, t)) :
    t.OnlyAtCursor ↔ t.cursor? ≠ none ∨ t.size = 0 := by
  obtain ⟨a, hr⟩ := exists_refines_run hvalid hrun
  have hcursor := hr.cursor?_eq
  cases hc : a.cursor with
  | some h =>
    obtain ⟨es, item, fs, hsplit, hn, hholds⟩ := hr.exists_split (hr.cursor_mem h hc)
    obtain ⟨t', hdetach, hr'⟩ := hr.detachAt (target.eq_1 a (some h)) hsplit hn
    rw [hc] at hcursor
    refine iff_of_true ⟨item, t', ?_, ?_⟩ (.inl (by simp [hcursor]))
    · rw [detachCur, hcursor, hdetach]
    · have hleft := hr'.holds
      rw [detachAt_eq hsplit hn] at hleft
      rw [hcursor]
      exact ⟨es, fs, hholds, hleft⟩
  | none =>
    -- without a handle it is the first item that goes
    rw [hc] at hcursor
    rw [OnlyAtCursor, detachCur, hcursor, hr.size_eq]
    cases hentries : a.entries with
    | nil =>
      refine iff_of_true ⟨none, t, ?_, rfl, rfl⟩ (.inr rfl)
      rw [Zlistx.detach, hr.target_eq, target, hentries]
      exact if_pos (by rw [hr.size_eq, hentries]; rfl)
    | cons e rest =>
      have htarget : a.target none = some e.1 := by rw [target, hentries]; rfl
      have hsplit : a.entries = [] ++ (e.1, e.2) :: rest := hentries
      obtain ⟨t₁, hdetach, hr₁⟩ := hr.detachAt htarget hsplit not_mem_nil
      refine iff_of_false ?_ (by simp)
      rintro ⟨item, t', he, -, rfl⟩
      cases hdetach.symm.trans he
      have hsize := hr₁.size_eq
      rw [hr.size_eq, detachAt_eq hsplit not_mem_nil, hentries] at hsize
      exact absurd hsize (Nat.succ_ne_self _)

theorem onlyAtCursor_on_first : ∃ rs t, run (callStep shrinkExactly) (new blank 0 byValue)
    [.on (.addEnd 1 (some 5)), .on (.addEnd 2 (some 20)), .sort 5, .on .first] = .ok (rs, t) ∧
      t.OnlyAtCursor := by
  have hmeet : StepsMeet (callStep shrinkExactly) Careful (new blank 0 byValue)
      [.on (.addEnd 1 (some 5)), .on (.addEnd 2 (some 20)), .sort 5, .on .first] :=
    stepsMeet_of_checkSteps (by decide +kernel)
  refine ⟨_, _, rfl, (onlyAtCursor_iff (hmeet.imp fun _ _ h => h.1) rfl).mpr (.inl ?_)⟩
  decide +kernel

/-- With the cursor on no item, the first is taken from the list. -/
theorem detachCur_takes_first : ((run (callStep shrinkExactly) (new blank 0 byValue)
    [.on (.addEnd 1 (some 20)), .on (.addEnd 2 (some 5))]).toOption.bind fun s =>
      s.2.detachCur.toOption.map fun d => (s.2.cursor?, d.1, d.2.contents)) =
    some (none, some 20, [some 5]) := by
  decide +kernel

end Czmq.Zlistx
