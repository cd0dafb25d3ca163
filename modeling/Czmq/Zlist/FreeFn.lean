import Czmq.Zlist.Deque
import Czmq.Zlist.Sort

/-! Which free function is called on an item. The function is in the node, and `zlist_sort`
exchanges the items of nodes. -/

namespace Czmq.Zlist

open List Machine

variable {I : Type} {t t' : Zlist I} {entries es fs : List (Nat × I)}

/-- All calls, `zlist_sort` with a bound on its rounds. -/
inductive Call (I : Type) where
  | on (op : DequeOp I)
  | freefn (item : I) (fn : Option Nat) (atTail : Bool)
  | sort (compareFn : Option (I → I → Int)) (rounds : Nat)

def callStep [DecidableEq I] (strcmp : I → I → Int) (shrink : Nat → Nat) (t : Zlist I) :
    Call I → Except Fault (DequeAnswer I × Zlist I)
  | .on op => t.dequeStep op
  | .freefn item fn atTail => do
    let (item, t) ← t.freefn item fn atTail
    pure (.ptr item, t)
  | .sort compareFn rounds => do
    let t ← t.sort strcmp compareFn shrink rounds
    pure (.void, t)

def nodesFrom (t : Zlist I) : Nat → Option Nat → List Nat
  | 0, _ => []
  | _ + 1, none => []
  | n + 1, some x => x :: nodesFrom t n (t.next x)

def allNodes (t : Zlist I) : List Nat := t.nodesFrom t.size t.head

/-- The calls that are made on a list of distinct items without `autofree`. -/
def Distinct (t : Zlist I) : Call I → Prop
  | .on (.append node item _) | .on (.push node item _) =>
    t.used node = false ∧ item ∉ t.allNodes.map t.item
  | .on .autofree => False
  | _ => True

/-- Where the sort finds an item above one that follows it, both have the same free function;
without transitivity, wherever that one stands. -/
def SortFits (strcmp : I → I → Int) (t : Zlist I) : Call I → Prop
  | .sort compareFn _ =>
    let gt := fun x y => above (t.compareWith strcmp compareFn) (t.item x) (t.item y)
    (t.allNodes.Pairwise fun x y => gt x y = true → t.freeFn x = t.freeFn y) ∧
      ((∀ x ∈ t.allNodes, ∀ y ∈ t.allNodes, ∀ z ∈ t.allNodes,
          gt x y = true → gt y z = true → gt x z = true) ∨
        ∀ x ∈ t.allNodes, ∀ y ∈ t.allNodes, gt x y = true → t.freeFn x = t.freeFn y)
  | _ => True

def Fits (strcmp : I → I → Int) (t : Zlist I) (call : Call I) : Prop :=
  t.Distinct call ∧ t.SortFits strcmp call

instance [DecidableEq I] (call : Call I) : Decidable (t.Distinct call) := by
  unfold Distinct
  split <;> infer_instance

instance (strcmp : I → I → Int) (call : Call I) : Decidable (t.SortFits strcmp call) := by
  unfold SortFits
  split <;> infer_instance

instance [DecidableEq I] (strcmp : I → I → Int) (call : Call I) : Decidable (t.Fits strcmp call) := by
  unfold Fits
  infer_instance

def setBy [DecidableEq I] (x : I) (fn : Option Nat) : Call I × DequeAnswer I → Option Nat
  | (.on (.append _ item _), _) | (.on (.push _ item _), _) => if item = x then none else fn
  | (.freefn item f _, .ptr (some _)) => if item = x then f else fn
  | _ => fn

/-- The free function last set for an item since it was added. -/
def lastSet [DecidableEq I] (x : I) (history : List (Call I × DequeAnswer I)) : Option Nat :=
  history.foldl (setBy x) none

lemma lastSet_concat [DecidableEq I] (x : I) (history : List (Call I × DequeAnswer I))
    (c : Call I × DequeAnswer I) : lastSet x (history ++ [c]) = setBy x (lastSet x history) c := by
  rw [lastSet, foldl_append]
  rfl

def freedBy (fn : Option Nat) (item : I) : List (Option Nat × I) := fn.toList.map fun f => (some f, item)

lemma nodesFrom_eq {xs : List Nat} {p : Option Nat} (h : Chain.Linked t.next p xs) :
    t.nodesFrom xs.length p = xs := by
  induction xs generalizing p with
  | nil => rfl
  | cons x xs ih =>
    obtain ⟨rfl, hrest⟩ := h
    rw [length_cons, nodesFrom, ih hrest]

lemma Holds.allNodes_eq (h : Holds t entries) : t.allNodes = nodes entries := by
  have hlength : t.size = (nodes entries).length := by rw [h.size_eq, nodes, length_map]
  rw [allNodes, hlength, nodesFrom_eq h.linked]

lemma Holds.map_item (h : Holds t entries) : (nodes entries).map t.item = entries.map Prod.snd := by
  rw [nodes, map_map]
  exact map_congr_left h.items

/-! ## Every node has the function that was last set for its item -/

structure Owned [DecidableEq I] (history : List (Call I × DequeAnswer I)) (t : Zlist I)
    (entries : List (Nat × I)) : Prop where
  holds : Holds t entries
  autofree : t.autofree = false
  distinct : (entries.map Prod.snd).Nodup
  freeFn : ∀ e ∈ entries, t.freeFn e.1 = lastSet e.2 history

section
variable [DecidableEq I] {history : List (Call I × DequeAnswer I)}

variable {c : Call I × DequeAnswer I}

lemma Owned.fewer {entries' : List (Nat × I)} (h : Owned history t entries)
    (hc : ∀ x fn, setBy x fn c = fn) (h' : Holds t' entries') (hsub : Sublist entries' entries)
    (hautofree : t'.autofree = t.autofree) (hfreeFn : t'.freeFn = t.freeFn) :
    Owned (history ++ [c]) t' entries' := by
  refine ⟨h', hautofree.trans h.autofree, h.distinct.sublist (hsub.map _), fun e he => ?_⟩
  rw [lastSet_concat, hc, hfreeFn]
  exact h.freeFn e (hsub.subset he)

lemma Owned.added {entries' : List (Nat × I)} {node : Nat} {item : I}
    (h : Owned history t entries) (hc : ∀ x fn, setBy x fn c = if item = x then none else fn)
    (hnode : t.used node = false) (hitem : item ∉ t.allNodes.map t.item) (h' : Holds t' entries')
    (hperm : entries'.Perm ((node, item) :: entries)) (hautofree : t'.autofree = t.autofree)
    (hfreeFn : t'.freeFn = Function.update t.freeFn node none) : Owned (history ++ [c]) t' entries' := by
  rw [h.holds.allNodes_eq, h.holds.map_item] at hitem
  have hitems : (entries'.map Prod.snd).Perm (item :: entries.map Prod.snd) := hperm.map Prod.snd
  refine ⟨h', hautofree.trans h.autofree,
    hitems.nodup_iff.mpr (nodup_cons.mpr ⟨hitem, h.distinct⟩), fun e he => ?_⟩
  rw [lastSet_concat, hc, hfreeFn]
  rcases mem_cons.mp (hperm.mem_iff.mp he) with rfl | he
  · rw [Function.update_self, if_pos rfl]
  · have hne : e.1 ≠ node := fun heq => h.holds.not_mem_of_unused hnode (heq ▸ mem_nodes he)
    have hni : item ≠ e.2 := fun heq => hitem (heq ▸ mem_map_of_mem he)
    rw [Function.update_of_ne hne, if_neg hni]
    exact h.freeFn e he

lemma Holds.freefnFrom_eq (h : Holds t (es ++ fs)) (item : I) (fn : Option Nat) {n : Nat}
    (hn : fs.length < n) :
    (∃ e ∈ fs, e.2 = item ∧ t.freefnFrom item fn n (nodes fs).head? =
        .ok (some item, { t with freeFn := Function.update t.freeFn e.1 fn })) ∨
      t.freefnFrom item fn n (nodes fs).head? = .ok (none, t) := by
  induction fs generalizing es n with
  | nil =>
    obtain ⟨n, rfl⟩ := Nat.exists_eq_add_of_lt hn
    exact .inr rfl
  | cons f fs ih =>
    obtain ⟨n, rfl⟩ : ∃ k, n = k + 1 := ⟨n - 1, by omega⟩
    rw [nodes_cons, head?_cons, freefnFrom, itemOf, if_pos h.used_mem, ok_bind, h.items f (by simp)]
    by_cases hf : f.2 = item
    · rw [if_pos hf]
      exact .inl ⟨f, mem_cons_self .., hf, rfl⟩
    · rw [if_neg hf, nextOf, if_pos h.used_mem, h.next_eq]
      rw [← singleton_append, ← append_assoc] at h
      rcases ih h (Nat.lt_of_succ_lt_succ hn) with ⟨e, he, hfound⟩ | hnone
      · exact .inl ⟨e, mem_cons_of_mem _ he, hfound⟩
      · exact .inr hnone

lemma Holds.freefn_cases (h : Holds t entries) (item : I) (fn : Option Nat) (atTail : Bool) :
    (∃ e ∈ entries, e.2 = item ∧ t.freefn item fn atTail =
        .ok (some item, { t with freeFn := Function.update t.freeFn e.1 fn })) ∨
      t.freefn item fn atTail = .ok (none, t) := by
  unfold freefn
  cases atTail with
  | false =>
    have hall : Holds t ([] ++ entries) := h
    have hloop := hall.freefnFrom_eq item fn h.lt_rounds
    rw [← h.linked.head?_eq] at hloop
    exact hloop
  | true =>
    rcases eq_nil_or_concat' entries with rfl | ⟨es, e, rfl⟩
    · have htail : t.tail = none := h.tail_eq
      rw [htail]
      exact .inr rfl
    · have htail : t.tail = (nodes [e]).head? := by
        rw [h.tail_eq]
        simp
      have hsize : [e].length < t.size + 1 := by
        rw [h.size_eq, length_append]
        exact Nat.lt_succ_of_le (Nat.le_add_left ..)
      have hloop := h.freefnFrom_eq item fn hsize
      rw [← htail] at hloop
      rcases hloop with ⟨e', he', hfound⟩ | hnone
      · exact .inl ⟨e', mem_append_right _ he', hfound⟩
      · exact .inr hnone

lemma Owned.freefn (h : Owned history t entries) {item : I} {fn : Option Nat} {atTail : Bool}
    {r : Option I} (he : t.freefn item fn atTail = .ok (r, t')) :
    Owned (history ++ [(.freefn item fn atTail, .ptr r)]) t' entries ∧ t'.freed = t.freed := by
  rcases h.holds.freefn_cases item fn atTail with ⟨e, hmem, hitem, hfound⟩ | hnone
  · rw [hfound] at he
    cases he
    refine ⟨⟨{ h.holds with }, h.autofree, h.distinct, fun e' he' => ?_⟩, rfl⟩
    rw [lastSet_concat]
    show Function.update t.freeFn e.1 fn e'.1 = if item = e'.2 then fn else lastSet e'.2 history
    -- two entries with one item are one entry, and so are two with one node
    by_cases hsame : item = e'.2
    · have heq : e = e' := inj_on_of_nodup_map h.distinct hmem he' (hitem.trans hsame)
      rw [if_pos hsame, ← heq, Function.update_self]
    · have hne : e'.1 ≠ e.1 := by
        intro heq
        have hentry : e' = e := inj_on_of_nodup_map h.holds.nodup he' hmem heq
        exact hsame (hentry ▸ hitem.symm)
      rw [if_neg hsame, Function.update_of_ne hne]
      exact h.freeFn e' he'
  · rw [hnone] at he
    cases he
    exact ⟨h.fewer (fun _ _ => rfl) h.holds (Sublist.refl _) rfl rfl, rfl⟩

lemma Owned.sort (h : Owned history t entries) {strcmp : I → I → Int} {shrink : Nat → Nat}
    (hshrink : Comb.Shrinks shrink) {compareFn : Option (I → I → Int)} {rounds : Nat}
    (hfits : t.SortFits strcmp (.sort compareFn rounds))
    (he : t.sort strcmp compareFn shrink rounds = .ok t') :
    ∃ entries', Owned (history ++ [(.sort compareFn rounds, .void)]) t' entries' ∧ t'.freed = t.freed := by
  have hlength : (nodes entries).length = t.size := by rw [nodes, length_map, h.holds.size_eq]
  obtain ⟨hinverted, hsound⟩ := hfits
  rw [h.holds.allNodes_eq] at hinverted hsound
  have hfn : ∀ x ∈ nodes entries, t.freeFn x = lastSet (t.item x) history := by
    intro x hx
    obtain ⟨e, hmem, rfl⟩ := mem_map.mp hx
    rw [h.holds.items e hmem, h.freeFn e hmem]
  have hat : ∀ i, (nodes entries).get i ∈ nodes entries := fun i => get_mem ..
  have hlabelled : Comb.Labelled (above (t.compareWith strcmp compareFn)) (fun x => lastSet x history)
      (t.freeFn ∘ (nodes entries).get) (t.item ∘ (nodes entries).get) := by
    have hlast := fun i => (hfn _ (hat i)).symm
    refine ⟨hlast, fun i j hij hgt => ?_, hsound.imp (fun htrans i j k => ?_) fun hall i j hgt => ?_⟩
    · exact (hlast i).trans ((pairwise_iff_get.mp hinverted i j hij hgt).trans (hlast j).symm)
    · exact htrans _ (hat i) _ (hat j) _ (hat k)
    · exact (hlast i).trans ((hall _ (hat i) _ (hat j) hgt).trans (hlast j).symm)
  have hloop : Loop.untilDone .endlessLoop (sortRound (t.compareWith strcmp compareFn) shrink) rounds
      (t.withItems t.item, (nodes entries).length, false) = .ok t' := hlength ▸ he
  obtain ⟨m, rfl, hperm, hm⟩ := Comb.labelled_of_sorted Fault.endlessLoop t.withItems h.holds.nodup
    (fun m gap swapped hguard hle => sortRound_of_guard h.holds hguard rfl
      (h.holds.size_eq ▸ hlength ▸ hle))
    (fun m gap swapped hguard => if_neg hguard)
    (fun gap hpos => by
      obtain ⟨hpos', hlt, hone⟩ := nextGap_spec hshrink hpos
      exact ⟨hpos', (le_or_gt gap 1).elim (fun hle => (hone hle).trans_le hpos) fun hgt => (hlt hgt).le⟩)
    hlabelled hloop
  have hsnd : ((nodes entries).zip ((nodes entries).map m)).map Prod.snd = (nodes entries).map m :=
    map_snd_zip (by simp)
  refine ⟨_, ⟨h.holds.withItems m, h.autofree, ?_, fun e hmem => ?_⟩, rfl⟩
  · rw [hsnd, hperm.nodup_iff, h.holds.map_item]
    exact h.distinct
  · rw [← map_prod_left_eq_zip] at hmem
    obtain ⟨x, hx, rfl⟩ := mem_map.mp hmem
    rw [lastSet_concat]
    exact (hm x hx).symm

/-! ## Every run -/

def destroyed (call : Call I) (entries entries' : List (Nat × I)) : List I :=
  match call with
  | .on (.remove _) | .on .purge => (entries.map Prod.snd).filter (· ∉ entries'.map Prod.snd)
  | _ => []

lemma Owned.moveCursor (h : Owned history t entries) {p : Option Nat}
    (hp : ∀ x ∈ p, x ∈ nodes entries) (hc : ∀ x fn, setBy x fn c = fn)
    {x : Option I} (he : t.moveCursor p = .ok (x, t')) :
    Owned (history ++ [c]) t' entries ∧ t'.freed = t.freed := by
  obtain ⟨hmove, h'⟩ := h.holds.moveCursor hp
  rw [hmove] at he
  cases he
  exact ⟨h.fewer hc h' (Sublist.refl _) rfl rfl, rfl⟩

lemma Owned.flatMap_disposed (h : Owned history t entries) (gone : List (Nat × I))
    (hgone : ∀ e ∈ gone, e ∈ entries) :
    (nodes gone).flatMap t.disposed = (gone.map Prod.snd).flatMap fun x => freedBy (lastSet x history) x := by
  rw [nodes, flatMap_map, flatMap_map]
  apply flatMap_congr
  intro e he
  rw [disposed, h.autofree, h.freeFn e (hgone e he), h.holds.items e (hgone e he)]
  rfl

lemma filter_not_mem_without {xs ys : List I} {x : I} (h : (xs ++ x :: ys).Nodup) :
    (xs ++ x :: ys).filter (· ∉ xs ++ ys) = [x] := by
  have hx : x ∉ xs ++ ys := (nodup_cons.mp (perm_middle.nodup_iff.mp h)).1
  have hrest : ∀ zs : List I, (∀ z ∈ zs, z ∈ xs ++ ys) → zs.filter (· ∉ xs ++ ys) = [] := by
    intro zs hzs
    exact filter_eq_nil_iff.mpr fun z hz => by rw [decide_eq_true_iff]; exact not_not_intro (hzs z hz)
  rw [filter_append, filter_cons_of_pos (by simpa using hx),
    hrest xs fun z hz => mem_append_left _ hz, hrest ys fun z hz => mem_append_right _ hz]
  rfl

lemma Owned.step (h : Owned history t entries) {strcmp : I → I → Int} {shrink : Nat → Nat}
    (hshrink : Comb.Shrinks shrink) {call : Call I} (hfits : t.Fits strcmp call)
    {r : DequeAnswer I} (hstep : t.callStep strcmp shrink call = .ok (r, t')) :
    ∃ entries', Owned (history ++ [(call, r)]) t' entries' ∧
      t'.freed = ((destroyed call entries entries').reverse.flatMap fun x =>
        freedBy (lastSet x history) x) ++ t.freed := by
  obtain ⟨hdistinct, hsort⟩ := hfits
  have hkeep : ∀ {c : Call I × DequeAnswer I}, (∀ x fn, setBy x fn c = fn) → Owned (history ++ [c]) t entries :=
    fun hc => h.fewer hc h.holds (Sublist.refl _) rfl rfl
  have hcopied : ∀ item copy, t.copied (fun _ => copy) item = item := by
    intro item copy
    rw [copied, h.autofree]
    rfl
  cases call with
  | freefn item fn atTail =>
    obtain ⟨⟨x, t1⟩, he, hpure⟩ := bind_eq_ok.mp hstep
    cases hpure
    exact ⟨entries, h.freefn he⟩
  | sort compareFn rounds =>
    obtain ⟨t1, he, hpure⟩ := bind_eq_ok.mp hstep
    cases hpure
    exact h.sort hshrink hsort he
  | on op =>
    cases op with
    | append node item copy =>
      obtain ⟨t1, he, h'⟩ := h.holds.append hdistinct.1 (fun _ => copy) item
      obtain ⟨links, head, ht1⟩ := append_ok he
      rw [callStep, dequeStep, he] at hstep
      cases hstep
      rw [hcopied] at h'
      exact ⟨_, h.added (fun _ _ => rfl) hdistinct.1 hdistinct.2 h' (perm_append_singleton ..)
        (by rw [ht1]; rfl) (by rw [ht1]; rfl), by rw [ht1]; rfl⟩
    | push node item copy =>
      obtain ⟨t1, he, h'⟩ := h.holds.push hdistinct.1 (fun _ => copy) item
      obtain ⟨links, tail, ht1⟩ := push_ok he
      rw [callStep, dequeStep, he] at hstep
      cases hstep
      rw [hcopied] at h'
      exact ⟨_, h.added (fun _ _ => rfl) hdistinct.1 hdistinct.2 h' (Perm.refl _)
        (by rw [ht1]; rfl) (by rw [ht1]; rfl), by rw [ht1]; rfl⟩
    | pop =>
      obtain ⟨t1, he, h'⟩ := h.holds.pop
      obtain ⟨head, tail, used, size, rfl⟩ := pop_ok he
      rw [callStep, dequeStep, he] at hstep
      cases hstep
      exact ⟨_, h.fewer (fun _ _ => rfl) h' (tail_sublist _) rfl rfl, rfl⟩
    | remove item =>
      rcases split_first entries (t.same item) with hnone | ⟨es, e, fs, rfl, hbefore, htest⟩
      · rw [callStep, dequeStep, h.holds.remove_absent hnone] at hstep
        cases hstep
        refine ⟨entries, hkeep fun _ _ => rfl, ?_⟩
        have hnil : destroyed (.on (.remove item)) entries entries = [] :=
          filter_eq_nil_iff.mpr fun x hx => by simpa using hx
        rw [hnil]
        rfl
      · obtain ⟨t1, he, h', hsame, -, hfreed⟩ := h.holds.remove_found hbefore htest
        rw [callStep, dequeStep, he] at hstep
        cases hstep
        have hsub : Sublist (es ++ fs) (es ++ e :: fs) :=
          (Sublist.refl es).append (sublist_cons_self e fs)
        refine ⟨es ++ fs, h.fewer (fun _ _ => rfl) h' hsub hsame.autofree hsame.freeFn, ?_⟩
        have hgone := h.flatMap_disposed [e] (by simp)
        have hitems := h.distinct
        rw [map_append] at hitems
        have hone : destroyed (.on (.remove item)) (es ++ e :: fs) (es ++ fs) = [e.2] := by
          rw [destroyed, map_append, map_append, map_cons, filter_not_mem_without hitems]
        rw [nodes_cons, nodes_nil, flatMap_singleton] at hgone
        rw [hfreed, hone, hgone]
        rfl
    | purge =>
      obtain ⟨t1, he, h', hsame, -, hfreed⟩ := h.holds.purge
      rw [callStep, dequeStep, he] at hstep
      cases hstep
      refine ⟨[], h.fewer (fun _ _ => rfl) h' (nil_sublist _) hsame.autofree hsame.freeFn, ?_⟩
      have hgone := h.flatMap_disposed entries.reverse fun e he => mem_reverse.mp he
      rw [nodes, map_reverse, map_reverse] at hgone
      have hall : destroyed (.on .purge) entries ([] : List (Nat × I)) = entries.map Prod.snd :=
        filter_eq_self.mpr fun x _ => by simp
      rw [hall, ← hgone]
      exact hfreed
    | first =>
      obtain ⟨⟨x, t1⟩, he, hpure⟩ := bind_eq_ok.mp hstep
      cases hpure
      exact ⟨entries, h.moveCursor h.holds.head_mem (fun _ _ => rfl) he⟩
    | next =>
      obtain ⟨⟨x, t1⟩, he, hpure⟩ := bind_eq_ok.mp hstep
      cases hpure
      obtain ⟨p, hp, hnext⟩ := h.holds.nextItem
      exact ⟨entries, h.moveCursor hp (fun _ _ => rfl) (hnext ▸ he)⟩
    | last =>
      obtain ⟨⟨x, t1⟩, he, hpure⟩ := bind_eq_ok.mp hstep
      cases hpure
      exact ⟨entries, h.moveCursor h.holds.tail_mem (fun _ _ => rfl) he⟩
    | head | tail | item | existsItem =>
      obtain ⟨x, -, hpure⟩ := bind_eq_ok.mp hstep
      cases hpure
      exact ⟨entries, hkeep fun _ _ => rfl, rfl⟩
    | size =>
      cases hstep
      exact ⟨entries, hkeep fun _ _ => rfl, rfl⟩
    | comparefn fn =>
      cases hstep
      have h' : Holds { t with compareFn := fn } entries := { h.holds with }
      exact ⟨entries, h.fewer (fun _ _ => rfl) h' (Sublist.refl _) rfl rfl, rfl⟩
    | autofree => exact hdistinct.elim

/-- In every run on distinct items whose sorts fit the free functions, every item that
`zlist_remove` or `zlist_purge` destroys is freed with the function last set for it, if any, and no
other call frees an item. -/
theorem freed_with_lastSet {strcmp : I → I → Int} {shrink : Nat → Nat}
    (hshrink : ∀ g, 1 < g → 1 ≤ shrink g ∧ shrink g < g) {links : Nat → Option Nat} {contents : Nat → I}
    {pre : List (Call I)} {call : Call I}
    (hfits : StepsMeet (callStep strcmp shrink) (Fits strcmp) (new links contents) (pre ++ [call]))
    {rs : List (DequeAnswer I)} (hpre : run (callStep strcmp shrink) (new links contents) pre = .ok (rs, t))
    {r : DequeAnswer I} (hcall : t.callStep strcmp shrink call = .ok (r, t')) :
    ∃ entries entries', Holds t entries ∧ Holds t' entries' ∧
      t'.freed = ((destroyed call entries entries').reverse.flatMap fun x =>
        freedBy (lastSet x (pre.zip rs)) x) ++ t.freed := by
  obtain ⟨entries, h⟩ := hfits.left.run_history
    (fun history t => ∃ entries, Owned history t entries)
    (fun history t call r t' ⟨entries, h⟩ hfit he => by
      obtain ⟨entries', h', -⟩ := h.step hshrink hfit he
      exact ⟨entries', h'⟩)
    ⟨[], (⟨holds_new .., rfl, nodup_nil, fun _ he => absurd he not_mem_nil⟩ : Owned [] _ [])⟩ hpre
  obtain ⟨entries', h', hfreed⟩ := h.step hshrink (hfits.right hpre).head hcall
  exact ⟨entries, entries', h.holds, h'.holds, hfreed⟩

end

/-- The sort exchanges 30 and 10, with the same free function; 40 has none and stays. -/
def threeItems : List (Call Nat) :=
  [.on (.append 1 30 0), .on (.append 2 10 0), .on (.append 3 40 0), .freefn 30 (some 7) false,
    .freefn 10 (some 7) false, .sort none 10]

theorem freed_with_lastSet_three : ∃ rs t r t' entries entries',
    run (callStep difference shrinkExactly) (new (fun _ => none) fun _ => 0) threeItems = .ok (rs, t) ∧
    t.callStep difference shrinkExactly (.on .purge) = .ok (r, t') ∧
    t'.freed = [(some 7, 30), (some 7, 10)] ∧ Holds t entries ∧ Holds t' entries' ∧
    t'.freed = ((destroyed (.on .purge) entries entries').reverse.flatMap fun x =>
      freedBy (lastSet x (threeItems.zip rs)) x) ++ t.freed := by
  have hfits : StepsMeet (callStep difference shrinkExactly) (Fits difference)
      (new (fun _ => none) fun _ => 0) (threeItems ++ [.on .purge]) :=
    stepsMeet_of_checkSteps (by decide +kernel)
  obtain ⟨rs, t, hrun⟩ : ∃ rs t, run (callStep difference shrinkExactly)
      (new (fun _ => none) fun _ => 0) threeItems = .ok (rs, t) := ⟨_, _, rfl⟩
  obtain ⟨r, t', hpurge⟩ : ∃ r t', t.callStep difference shrinkExactly (.on .purge) = .ok (r, t') := by
    cases hrun
    exact ⟨_, _, rfl⟩
  obtain ⟨entries, entries', h, h', hfreed⟩ := freed_with_lastSet shrinkExactly_spec hfits hrun hpurge
  refine ⟨rs, t, r, t', entries, entries', hrun, hpurge, ?_, h, h', hfreed⟩
  cases hrun
  cases hpurge
  rfl

/-- After a sort, the free function of 20 is called on 10, and none on 20. -/
theorem freed_after_sort :
    let ops : List (Call Nat) :=
      [.on (.append 1 20 0), .on (.append 2 10 0), .freefn 20 (some 7) false, .sort none 10]
    let answers : List (DequeAnswer Nat) := [.rc 0, .rc 0, .ptr (some 20), .void]
    let after := run (callStep difference shrinkExactly) (new (fun _ => none) fun _ => 0) ops
    after.map Prod.fst = .ok answers ∧
      lastSet 20 (ops.zip answers) = some 7 ∧ lastSet 10 (ops.zip answers) = none ∧
      (after.bind fun p => p.2.remove 20).map freed = .ok [] ∧
      (after.bind fun p => p.2.purge).map freed = .ok [(some 7, 10)] := by
  decide +kernel

end Czmq.Zlist
