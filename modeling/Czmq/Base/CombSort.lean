import Czmq.Base.Loop
import Mathlib.Data.List.FinRange
import Mathlib.Data.List.OfFn
import Mathlib.Data.Fintype.Perm
import Mathlib.Logic.Equiv.Fin.Basic
import Mathlib.Order.PiLex
import Mathlib.Order.WellFounded
import Mathlib.Data.DFinsupp.WellFounded
import Mathlib.Data.Prod.Lex
import Mathlib.GroupTheory.Perm.List

/-! Comb sort. An exchange lowers the sequence of values lexicographically, so only finitely many
passes exchange anything; a pass with gap one that exchanges nothing leaves neighbours in order. -/

namespace Comb

open List Equiv

def Shrinks (shrink : Nat → Nat) : Prop := ∀ g, 1 < g → 1 ≤ shrink g ∧ shrink g < g

section
variable {ι α : Type} [DecidableEq ι] (gt : α → α → Bool)

def exchange (s : (ι → α) × Bool) (p : ι × ι) : (ι → α) × Bool :=
  if gt (s.1 p.1) (s.1 p.2) then (s.1 ∘ Equiv.swap p.1 p.2, true) else s

def sweep (ps : List (ι × ι)) (s : (ι → α) × Bool) : (ι → α) × Bool := ps.foldl (exchange gt) s

variable {gt}

lemma sweep_cons (p : ι × ι) (ps : List (ι × ι)) (s : (ι → α) × Bool) :
    sweep gt (p :: ps) s = sweep gt ps (exchange gt s p) := rfl

lemma sweep_apply_of_forall_ne {ps : List (ι × ι)} {s : (ι → α) × Bool} {x : ι}
    (h : ∀ p ∈ ps, x ≠ p.1 ∧ x ≠ p.2) : (sweep gt ps s).1 x = s.1 x := by
  induction ps generalizing s with
  | nil => rfl
  | cons p ps ih =>
    obtain ⟨h1, h2⟩ := h p (mem_cons_self ..)
    rw [sweep_cons, ih fun q hq => h q (mem_cons_of_mem _ hq), exchange]
    split
    · exact congrArg s.1 (swap_apply_of_ne_of_ne h1 h2)
    · rfl

lemma exchange_of_compare (compare : α → α → Int) {σ : Type} (put : (ι → α) → σ) (m : ι → α)
    (swapped : Bool) (x y : ι) :
    (if 0 < compare (m x) (m y) then
        (put (Function.update (Function.update m x (m y)) y (m x)), true)
      else (put m, swapped)) =
    (put (exchange (fun a b => decide (0 < compare a b)) (m, swapped) (x, y)).1,
      (exchange (fun a b => decide (0 < compare a b)) (m, swapped) (x, y)).2) := by
  unfold exchange
  by_cases h : 0 < compare (m x) (m y)
  · rw [if_pos h, if_pos (decide_eq_true h), Equiv.swap_comm, comp_swap_eq_update]
  · rw [if_neg h, if_neg (by simpa using h)]

lemma exists_perm_sweep (gt : α → α → Bool) (ps : List (ι × ι)) (s : (ι → α) × Bool) :
    ∃ σ : Perm ι, (sweep gt ps s).1 = s.1 ∘ σ := by
  induction ps generalizing s with
  | nil => exact ⟨1, rfl⟩
  | cons p ps ih =>
    obtain ⟨σ, hσ⟩ := ih (exchange gt s p)
    rw [sweep_cons, hσ]
    unfold exchange
    split
    · exact ⟨Equiv.swap p.1 p.2 * σ, rfl⟩
    · exact ⟨σ, rfl⟩

lemma sweep_map (gt : α → α → Bool) {κ : Type} [DecidableEq κ] {place : κ → ι} (hplace : Function.Injective place)
    (ps : List (κ × κ)) (m : ι → α) (swapped : Bool) :
    ((sweep gt (ps.map (Prod.map place place)) (m, swapped)).1 ∘ place,
      (sweep gt (ps.map (Prod.map place place)) (m, swapped)).2) =
    sweep gt ps (m ∘ place, swapped) := by
  induction ps generalizing m swapped with
  | nil => rfl
  | cons p ps ih =>
    rw [map_cons, sweep_cons, sweep_cons]
    unfold exchange
    simp only [Prod.map_fst, Prod.map_snd, Function.comp_apply]
    split
    · rw [ih]
      congr 2
      funext k
      exact congrArg m (hplace.map_swap p.1 p.2 k).symm
    · exact ih m swapped

end

section
variable {α : Type} {n : Nat} {gt : α → α → Bool} {rank : α → Nat} {v v0 : Fin n → α}

def pairs (n gap : Nat) : List (Fin n × Fin n) :=
  (finRange n).zip ((finRange n).drop gap)

lemma mem_pairs {gap : Nat} {p : Fin n × Fin n} :
    p ∈ pairs n gap ↔ p.2.val = p.1.val + gap := by
  obtain ⟨i, j⟩ := p
  rw [pairs, mem_iff_getElem?]
  constructor
  · rintro ⟨k, hk⟩
    rw [getElem?_zip_eq_some] at hk
    obtain ⟨hi, hj⟩ := hk
    obtain ⟨hki, rfl⟩ := List.getElem?_eq_some_iff.mp hi
    obtain ⟨hkj, rfl⟩ := List.getElem?_eq_some_iff.mp hj
    simp [Nat.add_comm]
  · intro hij
    refine ⟨i.val, ?_⟩
    rw [getElem?_zip_eq_some, getElem?_drop]
    have hj : gap + i.val < (finRange n).length := by
      rw [length_finRange]
      dsimp only at hij
      omega
    refine ⟨by simp, ?_⟩
    rw [getElem?_eq_getElem hj, getElem_finRange]
    refine congrArg some (Fin.ext ?_)
    dsimp only at hij ⊢
    simp only [Fin.val_cast]
    omega

lemma lt_of_mem_pairs {gap : Nat} (hpos : 1 ≤ gap) {p : Fin n × Fin n} (hp : p ∈ pairs n gap) :
    p.1 < p.2 := by
  have := mem_pairs.mp hp
  exact Fin.lt_def.mpr (by omega)

def Ranked (gt : α → α → Bool) (rank : α → Nat) (v : Fin n → α) : Prop :=
  ∀ i j, gt (v i) (v j) = true → rank (v j) < rank (v i)

lemma Ranked.comp (h : Ranked gt rank v) (σ : Perm (Fin n)) : Ranked gt rank (v ∘ σ) :=
  fun i j hij => h (σ i) (σ j) hij

lemma toLex_swap_lt {i j : Fin n} (hij : i < j) (h : rank (v j) < rank (v i)) :
    toLex (rank ∘ (v ∘ Equiv.swap i j)) < toLex (rank ∘ v) := by
  refine ⟨i, fun k hk => ?_, ?_⟩
  · have hswap : Equiv.swap i j k = k :=
      swap_apply_of_ne_of_ne hk.ne (hk.trans hij).ne
    change rank (v (Equiv.swap i j k)) = rank (v k)
    rw [hswap]
  · change rank (v (Equiv.swap i j i)) < rank (v i)
    rw [swap_apply_left]
    exact h

lemma sweep_cases {ps : List (Fin n × Fin n)} (hps : ∀ p ∈ ps, p.1 < p.2)
    (hrank : Ranked gt rank v) (swapped : Bool) :
    (sweep gt ps (v, swapped) = (v, swapped) ∧ ∀ p ∈ ps, gt (v p.1) (v p.2) = false) ∨
      ((sweep gt ps (v, swapped)).2 = true ∧
        toLex (rank ∘ (sweep gt ps (v, swapped)).1) < toLex (rank ∘ v)) := by
  induction ps generalizing v swapped with
  | nil => exact .inl ⟨rfl, fun p hp => absurd hp not_mem_nil⟩
  | cons p ps ih =>
    have hps' : ∀ q ∈ ps, q.1 < q.2 := fun q hq => hps q (mem_cons_of_mem _ hq)
    rw [sweep_cons, exchange]
    cases hgt : gt (v p.1) (v p.2) with
    | false =>
      refine (ih hps' hrank swapped).imp_left fun ⟨he, hall⟩ => ⟨he, ?_⟩
      exact forall_mem_cons.mpr ⟨hgt, hall⟩
    | true =>
      rw [if_pos rfl]
      have hlt := toLex_swap_lt (hps p (mem_cons_self ..)) (hrank _ _ hgt)
      right
      rcases ih hps' (hrank.comp (Equiv.swap p.1 p.2)) true with ⟨he, -⟩ | ⟨he, hless⟩
      · rw [he]
        exact ⟨rfl, hlt⟩
      · exact ⟨he, hless.trans hlt⟩

/-- Every value has the label of its position, and values that a pass would exchange have the same.
If the comparison is not transitive, so have any two that it puts in order. -/
structure Labelled {β : Type} (gt : α → α → Bool) (label : α → β) (at_ : Fin n → β) (v : Fin n → α) :
    Prop where
  label_eq : ∀ i, label (v i) = at_ i
  inverted : ∀ i j, i < j → gt (v i) (v j) = true → label (v i) = label (v j)
  sound : (∀ i j k, gt (v i) (v j) = true → gt (v j) (v k) = true → gt (v i) (v k) = true) ∨
    ∀ i j, gt (v i) (v j) = true → label (v i) = label (v j)

lemma Labelled.swap {β : Type} {label : α → β} {at_ : Fin n → β} (h : Labelled gt label at_ v)
    {i j : Fin n} (hij : i < j) (hgt : gt (v i) (v j) = true) :
    Labelled gt label at_ (v ∘ Equiv.swap i j) := by
  have hsame := h.inverted i j hij hgt
  have hlabel : ∀ k, label (v (Equiv.swap i j k)) = at_ k := by
    intro k
    rw [swap_apply_def]
    split_ifs with hi hj
    · rw [hi, ← hsame, h.label_eq]
    · rw [hj, hsame, h.label_eq]
    · exact h.label_eq k
  refine ⟨hlabel, fun a b hab hout => ?_, h.sound.imp (fun htrans a b c => htrans _ _ _)
    fun hall a b => hall _ _⟩
  show label (v (Equiv.swap i j a)) = label (v (Equiv.swap i j b))
  replace hout : gt (v (Equiv.swap i j a)) (v (Equiv.swap i j b)) = true := hout
  rcases h.sound with htrans | hall
  · -- a pair with one of the two positions that is out of order now gives one that was before
    rw [swap_apply_def, swap_apply_def] at hout ⊢
    split_ifs at hout ⊢ with hai hbi hbj haj hbi hbj hbi hbj
    · rfl
    · exact hsame.symm
    · subst hai
      exact hsame.symm.trans (h.inverted a b hab (htrans _ _ _ hgt hout))
    · exact hsame
    · rfl
    · subst haj
      exact h.inverted i b (hij.trans hab) hout
    · subst hbi
      exact h.inverted a j (hab.trans hij) hout
    · subst hbj
      exact (h.inverted a b hab (htrans _ _ _ hout hgt)).trans hsame.symm
    · exact h.inverted a b hab hout
  · exact hall _ _ hout

lemma Labelled.sweep {β : Type} {label : α → β} {at_ : Fin n → β} {ps : List (Fin n × Fin n)}
    (hps : ∀ p ∈ ps, p.1 < p.2) (h : Labelled gt label at_ v) (swapped : Bool) :
    Labelled gt label at_ (Comb.sweep gt ps (v, swapped)).1 := by
  induction ps generalizing v swapped with
  | nil => exact h
  | cons p ps ih =>
    have hps' : ∀ q ∈ ps, q.1 < q.2 := fun q hq => hps q (mem_cons_of_mem _ hq)
    rw [sweep_cons, exchange]
    split
    · next hgt => exact ih hps' (h.swap (hps p (mem_cons_self ..)) hgt) true
    · exact ih hps' h swapped

def Ordered (gt : α → α → Bool) (v : Fin n → α) : Prop :=
  ∀ i j : Fin n, j.val = i.val + 1 → gt (v i) (v j) = false

/-- Between two passes: the values are those of the start, in order if the loop ends here. -/
structure Between (gt : α → α → Bool) (v0 v : Fin n → α) (gap : Nat) (swapped : Bool) : Prop where
  perm : ∃ σ : Perm (Fin n), v = v0 ∘ σ
  gap_le : gap ≤ n
  pos : swapped = true → 1 ≤ gap ∧ 1 ≤ n
  done : ¬(1 < gap ∨ swapped = true) → Ordered gt v

lemma between_start (gt : α → α → Bool) (v : Fin n → α) : Between gt v v n false := by
  refine ⟨⟨1, rfl⟩, le_rfl, fun h => absurd h Bool.false_ne_true, fun hdone i j hij => ?_⟩
  have := j.isLt
  exact absurd (Or.inl (by omega)) hdone

def progress (rank : α → Nat) (v : Fin n → α) (gap : Nat) (swapped : Bool) :
    Lex (Lex (Fin n → Nat) × Nat) :=
  toLex (toLex (rank ∘ v), gap + if swapped then 1 else 0)

lemma Between.pass {gap gap' : Nat} {swapped : Bool} (h : Between gt v0 v gap swapped)
    (hrank : Ranked gt rank v0) (hguard : 1 < gap ∨ swapped = true) (hpos : 1 ≤ gap')
    (hless : 1 < gap → gap' < gap) (hone : gap ≤ 1 → gap' = 1) :
    Between gt v0 (sweep gt (pairs n gap') (v, false)).1 gap'
        (sweep gt (pairs n gap') (v, false)).2 ∧
      progress rank (sweep gt (pairs n gap') (v, false)).1 gap'
        (sweep gt (pairs n gap') (v, false)).2 < progress rank v gap swapped := by
  obtain ⟨⟨σ, rfl⟩, hle, hswapped, -⟩ := h
  have hps : ∀ p ∈ pairs n gap', p.1 < p.2 := fun p hp => lt_of_mem_pairs hpos hp
  have hle' : gap' ≤ n := by
    rcases hguard with hgap | hs
    · exact ((hless hgap).trans_le hle).le
    · have := hswapped hs
      by_cases hgap : 1 < gap
      · exact ((hless hgap).trans_le hle).le
      · have := hone (by omega)
        omega
  obtain ⟨τ, hτ⟩ := exists_perm_sweep gt (pairs n gap') (v0 ∘ σ, false)
  have hperm : ∃ ρ : Perm (Fin n), (sweep gt (pairs n gap') (v0 ∘ σ, false)).1 = v0 ∘ ρ :=
    ⟨σ * τ, hτ⟩
  rcases sweep_cases hps (hrank.comp σ) false with ⟨he, hall⟩ | ⟨he, hlt⟩
  · -- nothing was exchanged: the gap, or the note of the last exchange, goes down
    rw [he] at hperm ⊢
    refine ⟨⟨hperm, hle', fun hs => absurd hs Bool.false_ne_true, fun hdone i j hij => ?_⟩, ?_⟩
    · refine hall (i, j) (mem_pairs.mpr ?_)
      dsimp only
      omega
    · refine Prod.Lex.right _ ?_
      rw [if_neg Bool.false_ne_true]
      by_cases hgap : 1 < gap
      · have := hless hgap
        omega
      · have hs := hguard.resolve_left hgap
        have := hswapped hs
        have := hone (by omega)
        rw [if_pos hs]
        omega
  · exact ⟨⟨hperm, hle', fun _ => ⟨hpos, hpos.trans hle'⟩, fun hdone => absurd (.inr he) hdone⟩,
      Prod.Lex.left _ _ hlt⟩

def rankIn (le : α → α → Bool) (values : List α) (a : α) : Nat := values.countP fun b => le b a

lemma rankIn_lt {le : α → α → Bool} {values : List α}
    (htotal : ∀ a ∈ values, ∀ b ∈ values, le a b = true ∨ le b a = true)
    (htrans : ∀ a ∈ values, ∀ b ∈ values, ∀ c ∈ values,
      le a b = true → le b c = true → le a c = true)
    {a b : α} (ha : a ∈ values) (hb : b ∈ values) (hlt : le a b = false) :
    rankIn le values b < rankIn le values a := by
  have hba : le b a = true := (htotal a ha b hb).resolve_left (by rw [hlt]; exact Bool.false_ne_true)
  have haa : le a a = true := (htotal a ha a ha).elim id id
  -- what is below `b` is below `a`, and `a` itself is not below `b`
  unfold rankIn
  obtain ⟨xs, ys, rfl⟩ := append_of_mem ha
  have hmono : ∀ zs : List α, (∀ z ∈ zs, z ∈ xs ++ a :: ys) →
      zs.countP (fun c => le c b) ≤ zs.countP (fun c => le c a) := fun zs hzs =>
    countP_mono_left fun c hc hcb => htrans c (hzs c hc) b hb a ha hcb hba
  have hxs := hmono xs fun z hz => mem_append_left _ hz
  have hys := hmono ys fun z hz => mem_append_right _ (mem_cons_of_mem _ hz)
  rw [countP_append, countP_append, countP_cons_of_neg (by simp [hlt]),
    countP_cons_of_pos (p := fun c => le c a) haa]
  omega

end

/-! ## Sorting the values at given places -/

section
variable {ι α : Type} [DecidableEq ι] {gt : α → α → Bool} {hs : List ι} {m0 m : ι → α}

/-- A comparison that orders the values of a list; `gt` is its strict part. -/
structure TotalPreorder (gt : α → α → Bool) (values : List α) : Prop where
  total : ∀ a ∈ values, ∀ b ∈ values, gt a b = false ∨ gt b a = false
  trans : ∀ a ∈ values, ∀ b ∈ values, ∀ c ∈ values,
    gt a b = false → gt b c = false → gt a c = false

lemma totalPreorder_of_key {κ : Type} [LinearOrder κ] {key : α → κ} (hgt : ∀ a b, gt a b = true ↔ key b < key a)
    (values : List α) : TotalPreorder gt values := by
  have hle : ∀ a b, gt a b = false ↔ key a ≤ key b := by
    intro a b
    rw [← Bool.not_eq_true, hgt, not_lt]
  refine ⟨fun a _ b _ => ?_, fun a _ b _ c _ hab hbc => ?_⟩
  · rw [hle, hle]
    exact le_total ..
  · rw [hle] at *
    exact hab.trans hbc

omit [DecidableEq ι] in
lemma TotalPreorder.ranked (h : TotalPreorder gt (hs.map m0)) :
    Ranked gt (rankIn (fun a b => !gt a b) (hs.map m0)) (m0 ∘ hs.get) := by
  intro i j hij
  have hmem : ∀ k, (m0 ∘ hs.get) k ∈ hs.map m0 := fun k =>
    mem_map_of_mem (get_mem hs k)
  refine rankIn_lt (fun a ha b hb => ?_) (fun a ha b hb c hc hab hbc => ?_) (hmem i) (hmem j) ?_
  · simpa using h.total a ha b hb
  · rw [Bool.not_eq_true'] at hab hbc ⊢
    exact h.trans a ha b hb c hc hab hbc
  · rw [hij]
    rfl

structure Midway (gt : α → α → Bool) (hs : List ι) (m0 m : ι → α) (gap : Nat) (swapped : Bool) :
    Prop where
  frame : ∀ x, x ∉ hs → m x = m0 x
  between : Between gt (m0 ∘ hs.get) (m ∘ hs.get) gap swapped

lemma sweep_zip_drop (gt : α → α → Bool) (hn : hs.Nodup) (gap : Nat) (m : ι → α) :
    (sweep gt (hs.zip (hs.drop gap)) (m, false)).1 ∘ hs.get =
        (sweep gt (pairs hs.length gap) (m ∘ hs.get, false)).1 ∧
      (sweep gt (hs.zip (hs.drop gap)) (m, false)).2 =
        (sweep gt (pairs hs.length gap) (m ∘ hs.get, false)).2 := by
  have hsweep := sweep_map gt (nodup_iff_injective_get.mp hn) (pairs hs.length gap) m false
  rw [pairs, ← zip_map, map_drop, map_get_finRange] at hsweep
  exact ⟨congrArg Prod.fst hsweep, congrArg Prod.snd hsweep⟩

omit [DecidableEq ι] in
lemma map_perm_of_comp {σ : Perm (Fin hs.length)} (h : m ∘ hs.get = (m0 ∘ hs.get) ∘ σ) :
    (hs.map m).Perm (hs.map m0) := by
  have hofFn : ∀ f : ι → α, hs.map f = ofFn (f ∘ hs.get) := by
    intro f
    rw [← map_ofFn, ofFn_get]
  rw [hofFn, hofFn, h]
  exact Perm.ofFn_comp_perm σ _

lemma Midway.pass {gap gap' : Nat} {swapped : Bool} {rank : α → Nat}
    (h : Midway gt hs m0 m gap swapped) (hn : hs.Nodup) (hrank : Ranked gt rank (m0 ∘ hs.get))
    (hguard : 1 < gap ∨ swapped = true) (hpos : 1 ≤ gap') (hless : 1 < gap → gap' < gap)
    (hone : gap ≤ 1 → gap' = 1) :
    Midway gt hs m0 (sweep gt (hs.zip (hs.drop gap')) (m, false)).1 gap'
        (sweep gt (hs.zip (hs.drop gap')) (m, false)).2 ∧
      progress rank ((sweep gt (hs.zip (hs.drop gap')) (m, false)).1 ∘ hs.get) gap'
          (sweep gt (hs.zip (hs.drop gap')) (m, false)).2 <
        progress rank (m ∘ hs.get) gap swapped := by
  obtain ⟨hvalues, hswapped⟩ := sweep_zip_drop gt hn gap' m
  obtain ⟨hbetween, hlt⟩ := h.between.pass hrank hguard hpos hless hone
  rw [← hvalues, ← hswapped] at hbetween hlt
  refine ⟨⟨fun x hx => ?_, hbetween⟩, hlt⟩
  rw [← h.frame x hx]
  refine sweep_apply_of_forall_ne fun p hp => ?_
  obtain ⟨h1, h2⟩ := of_mem_zip hp
  exact ⟨fun he => hx (he ▸ h1), fun he => hx (he ▸ mem_of_mem_drop h2)⟩

omit [DecidableEq ι] in
lemma Midway.sorted {gap : Nat} {swapped : Bool} (h : Midway gt hs m0 m gap swapped)
    (hdone : ¬(1 < gap ∨ swapped = true)) :
    (hs.map m).Perm (hs.map m0) ∧ (hs.map m).IsChain fun a b => gt a b = false := by
  obtain ⟨⟨σ, hσ⟩, -, -, hordered⟩ := h.between
  constructor
  · exact map_perm_of_comp hσ
  · rw [isChain_iff_getElem]
    intro i hi
    rw [length_map] at hi
    have hnext := hordered hdone ⟨i, by omega⟩ ⟨i + 1, hi⟩ rfl
    simpa using hnext

variable {σ ε : Type} (endless : ε) {round : σ × Nat × Bool → Except ε ((σ × Nat × Bool) ⊕ σ)}
  (put : (ι → α) → σ) {nextGap : Nat → Nat} (hn : hs.Nodup)
  (hround : ∀ m gap swapped, 1 < gap ∨ swapped = true → nextGap gap ≤ hs.length →
    round (put m, gap, swapped) =
      .ok (.inl (put (sweep gt (hs.zip (hs.drop (nextGap gap))) (m, false)).1, nextGap gap,
        (sweep gt (hs.zip (hs.drop (nextGap gap))) (m, false)).2)))
  (hend : ∀ m gap swapped, ¬(1 < gap ∨ swapped = true) →
    round (put m, gap, swapped) = .ok (.inr (put m)))
include hn hround hend

/-- The whole sort, on states that store the values with `put`; the gap goes from the number of
places down to one. -/
lemma exists_sorted (values : σ → ι → α) (hvalues : ∀ m, values (put m) = m)
    (hgt : TotalPreorder gt (hs.map m0))
    (hgap : ∀ gap, 1 ≤ gap → 1 ≤ nextGap gap ∧ (1 < gap → nextGap gap < gap) ∧
      (gap ≤ 1 → nextGap gap = 1)) :
    ∃ m, (∀ x, x ∉ hs → m x = m0 x) ∧ (hs.map m).Perm (hs.map m0) ∧
      (hs.map m).IsChain (fun a b => gt a b = false) ∧
      ∃ rounds, ∀ n, rounds ≤ n →
        Loop.untilDone endless round n (put m0, hs.length, false) = .ok (put m) := by
  have hbody : ∀ s : σ × Nat × Bool, (∃ m, s.1 = put m ∧ Midway gt hs m0 m s.2.1 s.2.2) →
      (∃ r, round s = .ok (.inr r) ∧ ∃ m gap swapped, r = put m ∧
        Midway gt hs m0 m gap swapped ∧ ¬(1 < gap ∨ swapped = true)) ∨
      ∃ s', round s = .ok (.inl s') ∧ (∃ m, s'.1 = put m ∧ Midway gt hs m0 m s'.2.1 s'.2.2) ∧
        progress (rankIn (fun a b => !gt a b) (hs.map m0)) (values s'.1 ∘ hs.get) s'.2.1 s'.2.2 <
          progress (rankIn (fun a b => !gt a b) (hs.map m0)) (values s.1 ∘ hs.get) s.2.1 s.2.2 := by
    rintro ⟨s, gap, swapped⟩ ⟨m, rfl, hmid⟩
    by_cases hguard : 1 < gap ∨ swapped = true
    · right
      have hpos : 1 ≤ gap := hguard.elim (fun h => by omega) fun h => (hmid.between.pos h).1
      obtain ⟨hpos', hless, hone⟩ := hgap gap hpos
      obtain ⟨hmid', hlt⟩ := hmid.pass hn hgt.ranked hguard hpos' hless hone
      refine ⟨_, hround m gap swapped hguard hmid'.between.gap_le, ⟨_, rfl, hmid'⟩, ?_⟩
      rw [hvalues, hvalues]
      exact hlt
    · exact .inl ⟨_, hend m gap swapped hguard, m, gap, swapped, rfl, hmid, hguard⟩
  obtain ⟨r, ⟨m, gap, swapped, rfl, hmid, hdone⟩, hrounds⟩ :=
    Loop.untilDone_total endless _ _ _ hbody (s := (put m0, hs.length, false))
      ⟨m0, rfl, fun _ _ => rfl, between_start gt _⟩
  obtain ⟨hperm, hchain⟩ := hmid.sorted hdone
  exact ⟨m, hmid.frame, hperm, hchain, hrounds⟩

lemma labelled_of_sorted {β : Type} {label : α → β} {at_ : ι → β}
    (hgap : ∀ gap, 1 ≤ gap → 1 ≤ nextGap gap ∧ nextGap gap ≤ gap)
    (hlabel : Labelled gt label (at_ ∘ hs.get) (m0 ∘ hs.get)) {n : Nat} {r : σ}
    (h : Loop.untilDone endless round n (put m0, hs.length, false) = .ok r) :
    ∃ m, r = put m ∧ (hs.map m).Perm (hs.map m0) ∧ ∀ x ∈ hs, label (m x) = at_ x := by
  -- between two rounds: the values are those of the start, and a round that follows has a gap
  refine Loop.untilDone_invariant
    (fun s : σ × Nat × Bool => ∃ m, s.1 = put m ∧
      (∃ τ : Perm (Fin hs.length), m ∘ hs.get = (m0 ∘ hs.get) ∘ τ) ∧
      Labelled gt label (at_ ∘ hs.get) (m ∘ hs.get) ∧ s.2.1 ≤ hs.length ∧ (s.2.2 = true → 1 ≤ s.2.1))
    (fun r => ∃ m, r = put m ∧ (hs.map m).Perm (hs.map m0) ∧ ∀ x ∈ hs, label (m x) = at_ x) ?_
    ⟨m0, rfl, ⟨1, rfl⟩, hlabel, le_rfl, fun hs => absurd hs Bool.false_ne_true⟩ h
  rintro ⟨s, gap, swapped⟩ ⟨m, rfl, ⟨τ, hτ⟩, hlabelled, hle, hpos⟩ x hx
  by_cases hguard : 1 < gap ∨ swapped = true
  · obtain ⟨hpos', hle'⟩ := hgap gap (hguard.elim le_of_lt hpos)
    rw [hround m gap swapped hguard (hle'.trans hle)] at hx
    cases hx
    obtain ⟨hvalues, -⟩ := sweep_zip_drop gt hn (nextGap gap) m
    obtain ⟨ρ, hρ⟩ := exists_perm_sweep gt (pairs hs.length (nextGap gap)) (m ∘ hs.get, false)
    refine ⟨_, rfl, ⟨τ * ρ, ?_⟩, ?_, hle'.trans hle, fun _ => hpos'⟩
    · rw [hvalues, hρ]
      rw [hτ]
      rfl
    · rw [hvalues]
      exact hlabelled.sweep (fun p hp => lt_of_mem_pairs hpos' hp) false
  · rw [hend m gap swapped hguard] at hx
    cases hx
    refine ⟨m, rfl, map_perm_of_comp hτ, fun x hx => ?_⟩
    obtain ⟨i, rfl⟩ := mem_iff_get.mp hx
    exact hlabelled.label_eq i

end

end Comb
