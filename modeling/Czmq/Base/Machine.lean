import Mathlib.Tactic.Common

/-! Runs of a machine whose steps answer something and may fault. Properties of runs come from one
step: an invariant, or a relation to an abstract machine that never faults. -/

namespace Machine

open List

variable {σ τ α ρ ε : Type}

def run (step : σ → α → Except ε (ρ × σ)) : σ → List α → Except ε (List ρ × σ)
  | s, [] => .ok ([], s)
  | s, op :: ops => do
    let (r, s) ← step s op
    let (rs, s) ← run step s ops
    pure (r :: rs, s)

def runAbs (step : τ → α → ρ × τ) : τ → List α → List ρ × τ
  | a, [] => ([], a)
  | a, op :: ops =>
    let (r, a) := step a op
    let (rs, a) := runAbs step a ops
    (r :: rs, a)

/-- Every step of the run is taken with a state and an operation that meet `P`. -/
def StepsMeet (step : σ → α → Except ε (ρ × σ)) (P : σ → α → Prop) (s : σ) (ops : List α) : Prop :=
  ∀ pre op post, ops = pre ++ op :: post →
    ∀ rs s', run step s pre = .ok (rs, s') → P s' op

variable {step : σ → α → Except ε (ρ × σ)} {P : σ → α → Prop}

variable {s s1 : σ} {op : α}

lemma run_cons_ok {r : ρ} (h : step s op = .ok (r, s1)) (ops : List α) :
    run step s (op :: ops) = (run step s1 ops).map fun p => (r :: p.1, p.2) := by
  rw [run, h]
  change (run step s1 ops >>= fun p => pure (r :: p.1, p.2)) = _
  cases run step s1 ops <;> rfl

lemma run_cons_error {e : ε} (h : step s op = .error e) (ops : List α) :
    run step s (op :: ops) = .error e := by
  rw [run, h]
  rfl

variable {s' : σ} {ops : List α} {rs : List ρ}

lemma run_cons_eq_ok (h : run step s (op :: ops) = .ok (rs, s')) :
    ∃ r s1 rs', step s op = .ok (r, s1) ∧ run step s1 ops = .ok (rs', s') ∧ rs = r :: rs' := by
  cases hstep : step s op with
  | error e => rw [run_cons_error hstep] at h; cases h
  | ok p =>
    obtain ⟨r, s1⟩ := p
    rw [run_cons_ok hstep] at h
    cases hrest : run step s1 ops with
    | error e => rw [hrest] at h; cases h
    | ok q =>
      rw [hrest] at h
      cases h
      exact ⟨r, s1, q.1, rfl, hrest, rfl⟩

variable {pre : List α}

lemma run_append_ok (h : run step s pre = .ok (rs, s1)) (post : List α) :
    run step s (pre ++ post) = (run step s1 post).map fun p => (rs ++ p.1, p.2) := by
  induction pre generalizing s rs with
  | nil =>
    cases h
    rw [nil_append]
    cases run step s1 post <;> rfl
  | cons op pre ih =>
    obtain ⟨r, s2, rs', he, hpre, rfl⟩ := run_cons_eq_ok h
    rw [cons_append, run_cons_ok he, ih hpre]
    cases run step s1 post <;> rfl

variable {post : List α}

lemma run_append_eq_ok (h : run step s (pre ++ post) = .ok (rs, s')) :
    ∃ rs1 s1 rs2, run step s pre = .ok (rs1, s1) ∧ run step s1 post = .ok (rs2, s') ∧ rs = rs1 ++ rs2 := by
  induction pre generalizing s rs with
  | nil => exact ⟨[], s, rs, rfl, h, rfl⟩
  | cons op pre ih =>
    obtain ⟨r, s1, rs', he, hrest, rfl⟩ := run_cons_eq_ok h
    obtain ⟨rs1, s2, rs2, hpre, hpost, rfl⟩ := ih hrest
    refine ⟨r :: rs1, s2, rs2, ?_, hpost, rfl⟩
    rw [run_cons_ok he, hpre]
    rfl

lemma StepsMeet.head (h : StepsMeet step P s (op :: ops)) :
    P s op := h [] op ops rfl [] s rfl

lemma StepsMeet.tail {r : ρ}
    (h : StepsMeet step P s (op :: ops)) (hstep : step s op = .ok (r, s1)) :
    StepsMeet step P s1 ops := by
  intro pre op' post he rs s' hrun
  refine h (op :: pre) op' post (by rw [he]; rfl) (r :: rs) s' ?_
  rw [run_cons_ok hstep, hrun]
  rfl

lemma stepsMeet_nil (s : σ) : StepsMeet step P s [] := by
  intro pre op post he
  simp at he

lemma StepsMeet.cons (hop : P s op)
    (hops : ∀ r s1, step s op = .ok (r, s1) → StepsMeet step P s1 ops) :
    StepsMeet step P s (op :: ops) := by
  intro pre op' post he rs s' hrun
  cases pre with
  | nil =>
    obtain ⟨rfl, rfl⟩ := cons.inj he
    cases hrun
    exact hop
  | cons op1 pre =>
    obtain ⟨rfl, rfl⟩ := cons.inj he
    obtain ⟨r, s1, rs1, hstep, hpre, -⟩ := run_cons_eq_ok hrun
    exact hops r s1 hstep pre op' post rfl rs1 s' hpre

lemma StepsMeet.left (h : StepsMeet step P s (pre ++ post)) :
    StepsMeet step P s pre := by
  intro pre1 op post1 he
  exact h pre1 op (post1 ++ post) (by rw [he]; simp)

lemma StepsMeet.right
    (h : StepsMeet step P s (pre ++ post)) (hrun : run step s pre = .ok (rs, s1)) :
    StepsMeet step P s1 post := by
  intro pre1 op post1 he rs1 s' hrun1
  refine h (pre ++ pre1) op post1 (by rw [he, append_assoc]) (rs ++ rs1) s' ?_
  rw [run_append_ok hrun, hrun1]
  rfl

lemma StepsMeet.imp {Q : σ → α → Prop} (hPQ : ∀ s op, P s op → Q s op)
    (h : StepsMeet step P s ops) : StepsMeet step Q s ops :=
  fun pre op post he rs s' hrun => hPQ s' op (h pre op post he rs s' hrun)

lemma stepsMeet_congr {Q : σ → α → Prop} {inv : σ → Prop}
    (hiff : ∀ s op, inv s → (P s op ↔ Q s op))
    (hstep : ∀ s op r s', inv s → P s op → step s op = .ok (r, s') → inv s') (hs : inv s) :
    StepsMeet step P s ops ↔ StepsMeet step Q s ops := by
  induction ops generalizing s with
  | nil => exact iff_of_true (stepsMeet_nil s) (stepsMeet_nil s)
  | cons op ops ih =>
    constructor <;> intro h
    · refine .cons ((hiff s op hs).mp h.head) fun r s1 he => ?_
      exact (ih (hstep s op r s1 hs h.head he)).mp (h.tail he)
    · have hop := (hiff s op hs).mpr h.head
      exact .cons hop fun r s1 he => (ih (hstep s op r s1 hs hop he)).mpr (h.tail he)

lemma StepsMeet.append (hpre : StepsMeet step P s pre) (hrun : run step s pre = .ok (rs, s1))
    (hpost : StepsMeet step P s1 post) : StepsMeet step P s (pre ++ post) := by
  induction pre generalizing s rs with
  | nil =>
    cases hrun
    exact hpost
  | cons op pre ih =>
    obtain ⟨r, s2, rs', hstep, htail, -⟩ := run_cons_eq_ok hrun
    refine StepsMeet.cons hpre.head fun r' s2' hstep' => ?_
    rw [hstep] at hstep'
    cases hstep'
    exact ih (hpre.tail hstep) htail

lemma StepsMeet.exists_run (hstep : ∀ s op, P s op → ∃ r s', step s op = .ok (r, s'))
    (h : StepsMeet step P s ops) : ∃ rs s', run step s ops = .ok (rs, s') := by
  induction ops generalizing s with
  | nil => exact ⟨[], s, rfl⟩
  | cons op ops ih =>
    obtain ⟨r, s1, he⟩ := hstep s op h.head
    obtain ⟨rs, s', hrun⟩ := ih (h.tail he)
    refine ⟨r :: rs, s', ?_⟩
    rw [run_cons_ok he, hrun]
    rfl

def checkSteps (step : σ → α → Except ε (ρ × σ)) (P : σ → α → Prop) [∀ s op, Decidable (P s op)] :
    σ → List α → Bool
  | _, [] => true
  | s, op :: ops => decide (P s op) &&
    match step s op with
    | .ok (_, s) => checkSteps step P s ops
    | .error _ => true

lemma stepsMeet_of_checkSteps [∀ s op, Decidable (P s op)]
    (h : checkSteps step P s ops = true) : StepsMeet step P s ops := by
  induction ops generalizing s with
  | nil => exact stepsMeet_nil s
  | cons op ops ih =>
    rw [checkSteps, Bool.and_eq_true] at h
    refine StepsMeet.cons (of_decide_eq_true h.1) fun r s1 hstep => ih ?_
    have hrest := h.2
    rw [hstep] at hrest
    exact hrest

lemma exists_of_map_eq_ok {β : Type} {x : Except ε α} {f : α → β} {b : β} (h : x.map f = .ok b) :
    ∃ a, x = .ok a ∧ f a = b := by
  cases x with
  | error e => cases h
  | ok a => exact ⟨a, rfl, Except.ok.inj h⟩

lemma run_map_range (step : σ → α → Except ε (ρ × σ)) (inv : Nat → σ → Prop) (op : Nat → α)
    {n : Nat}
    (hstep : ∀ i < n, ∀ s, inv i s →
      P s (op i) ∧ ∃ r s', step s (op i) = .ok (r, s') ∧ inv (i + 1) s')
    (hs : inv 0 s) :
    StepsMeet step P s ((range n).map op) ∧
      ∃ rs s', run step s ((range n).map op) = .ok (rs, s') ∧ inv n s' := by
  induction n with
  | zero => exact ⟨stepsMeet_nil s, [], s, rfl, hs⟩
  | succ n ih =>
    obtain ⟨hmeet, rs, s1, hrun, hinv⟩ := ih fun i hi => hstep i (by omega)
    obtain ⟨hP, r, s', he, hinv'⟩ := hstep n (by omega) s1 hinv
    rw [range_succ, map_append, map_singleton]
    refine ⟨hmeet.append hrun (StepsMeet.cons hP fun _ _ _ => stepsMeet_nil _), rs ++ [r], s', ?_,
      hinv'⟩
    rw [run_append_ok hrun, run_cons_ok he]
    rfl

/-- A relation that steps with `P` keep, and their equal answers, hold along runs of such steps. -/
lemma run_refines (absStep : τ → α → ρ × τ) {R : σ → τ → Prop}
    (hstep : ∀ s a op, R s a → P s op →
      ∃ s', step s op = .ok ((absStep a op).1, s') ∧ R s' (absStep a op).2)
    {a : τ} (hR : R s a) (hP : StepsMeet step P s ops) :
    ∃ s', run step s ops = .ok ((runAbs absStep a ops).1, s') ∧ R s' (runAbs absStep a ops).2 := by
  induction ops generalizing s a with
  | nil => exact ⟨s, rfl, hR⟩
  | cons op ops ih =>
    obtain ⟨s1, he, hR1⟩ := hstep s a op hR hP.head
    obtain ⟨s', hrun, hR'⟩ := ih hR1 (hP.tail he)
    refine ⟨s', ?_, hR'⟩
    rw [run_cons_ok he, hrun]
    rfl

lemma StepsMeet.run_answers (inv : σ → Prop) (answer : ρ → Prop)
    (hstep : ∀ s op r s', inv s → P s op → step s op = .ok (r, s') → inv s' ∧ answer r)
    (hP : StepsMeet step P s ops) (hs : inv s)
    (hrun : run step s ops = .ok (rs, s')) : inv s' ∧ ∀ r ∈ rs, answer r := by
  induction ops generalizing s rs with
  | nil =>
    cases hrun
    exact ⟨hs, fun r hr => absurd hr not_mem_nil⟩
  | cons op ops ih =>
    obtain ⟨r, s1, rs', he, hops, rfl⟩ := run_cons_eq_ok hrun
    obtain ⟨hs1, hr⟩ := hstep s op r s1 hs hP.head he
    obtain ⟨hs', hrs⟩ := ih (hP.tail he) hs1 hops
    exact ⟨hs', forall_mem_cons.mpr ⟨hr, hrs⟩⟩

lemma StepsMeet.run_invariant (inv : σ → Prop)
    (hstep : ∀ s op r s', inv s → P s op → step s op = .ok (r, s') → inv s')
    (hP : StepsMeet step P s ops) (hs : inv s)
    (hrun : run step s ops = .ok (rs, s')) : inv s' :=
  (hP.run_answers inv (fun _ => True)
    (fun s op r s' hi hp he => ⟨hstep s op r s' hi hp he, trivial⟩) hs hrun).1

lemma StepsMeet.run_history (inv : List (α × ρ) → σ → Prop)
    (hstep : ∀ hist s op r s', inv hist s → P s op → step s op = .ok (r, s') → inv (hist ++ [(op, r)]) s')
    {hist : List (α × ρ)} (hP : StepsMeet step P s ops)
    (hs : inv hist s) (hrun : run step s ops = .ok (rs, s')) : inv (hist ++ ops.zip rs) s' := by
  induction ops generalizing s rs hist with
  | nil =>
    cases hrun
    rw [zip_nil_left, append_nil]
    exact hs
  | cons op ops ih =>
    obtain ⟨r, s1, rs', he, hrest, rfl⟩ := run_cons_eq_ok hrun
    have hinv := ih (hP.tail he) (hstep hist s op r s1 hs hP.head he) hrest
    rw [append_assoc] at hinv
    exact hinv

lemma run_invariant {inv : σ → Prop}
    (hstep : ∀ s op r s', inv s → step s op = .ok (r, s') → inv s')
    (hs : inv s) (hrun : run step s ops = .ok (rs, s')) : inv s' :=
  StepsMeet.run_invariant inv (fun s op r s' hi _ he => hstep s op r s' hi he)
    (fun _ _ _ _ _ _ _ => trivial) hs hrun

lemma run_trans (inv : σ → Prop) (R : σ → σ → Prop) (htrans : ∀ a b c, R a b → R b c → R a c)
    (hstep : ∀ s op r s', op ∈ ops → inv s → step s op = .ok (r, s') → inv s' ∧ R s s')
    (hs : inv s) (hops : ops ≠ []) (hrun : run step s ops = .ok (rs, s')) : R s s' := by
  induction ops generalizing s rs with
  | nil => exact absurd rfl hops
  | cons op ops ih =>
    obtain ⟨r, s1, rs', he, hrest, rfl⟩ := run_cons_eq_ok hrun
    obtain ⟨hs1, hR⟩ := hstep s op r s1 mem_cons_self hs he
    by_cases hnil : ops = []
    · subst hnil
      cases hrest
      exact hR
    · have hR' := ih (fun s op r s' hop => hstep s op r s' (mem_cons_of_mem _ hop)) hs1 hnil hrest
      exact htrans _ _ _ hR hR'

end Machine
