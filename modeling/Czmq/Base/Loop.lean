import Mathlib.Tactic.Common
import Mathlib.Data.UInt

/-! Loops as a C program runs them, up to a number of guard tests. A `for` loop over a 32-bit `uint`
is one pass over the numbers below its limit if the counter can reach that, and otherwise endless.
-/

namespace Loop

variable {σ ρ ε : Type}

/-- The state in which `while (guard) body` stops within `n` rounds. -/
def whileLoop (guard : σ → Bool) (body : σ → σ) : Nat → σ → Option σ
  | 0, s => if guard s then none else some s
  | n + 1, s => if guard s then whileLoop guard body n (body s) else some s

lemma whileLoop_invariant {guard : σ → Bool} {body : σ → σ} (inv : σ → Prop)
    (hbody : ∀ s, inv s → guard s = true → inv (body s)) {n : Nat} {s s' : σ} (hs : inv s)
    (h : whileLoop guard body n s = some s') : inv s' ∧ guard s' = false := by
  induction n generalizing s with
  | zero =>
    cases hg : guard s with
    | true => simp [whileLoop, hg] at h
    | false =>
      obtain rfl : s = s' := by simpa [whileLoop, hg] using h
      exact ⟨hs, hg⟩
  | succ n ih =>
    cases hg : guard s with
    | true =>
      rw [whileLoop, if_pos hg] at h
      exact ih (hbody s hs hg) h
    | false =>
      obtain rfl : s = s' := by simpa [whileLoop, hg] using h
      exact ⟨hs, hg⟩

/-- A loop whose body keeps `inv` and lowers `measure` stops within `measure s` rounds. -/
lemma whileLoop_rule {guard : σ → Bool} {body : σ → σ} (inv : σ → Prop) (measure : σ → Nat)
    (hbody : ∀ s, inv s → guard s = true → inv (body s) ∧ measure (body s) < measure s)
    (n : Nat) (s : σ) (hs : inv s) (hn : measure s ≤ n) :
    ∃ s', whileLoop guard body n s = some s' ∧ inv s' ∧ guard s' = false := by
  induction n generalizing s with
  | zero =>
    cases hg : guard s with
    | true => exact absurd (hbody s hs hg).2 (by omega)
    | false => exact ⟨s, by simp [whileLoop, hg], hs, hg⟩
  | succ n ih =>
    cases hg : guard s with
    | true =>
      obtain ⟨hinv, hlt⟩ := hbody s hs hg
      obtain ⟨s', he, hs'⟩ := ih (body s) hinv (by omega)
      exact ⟨s', by simpa [whileLoop, hg] using he, hs'⟩
    | false => exact ⟨s, by simp [whileLoop, hg], hs, hg⟩

/-! ## Loops that fault or return from their body -/

/-- Run `body` until it answers, or `endless` after `n` rounds. -/
def untilDone (endless : ε) (body : σ → Except ε (σ ⊕ ρ)) : Nat → σ → Except ε ρ
  | 0, _ => .error endless
  | n + 1, s =>
    match body s with
    | .ok (.inl s') => untilDone endless body n s'
    | .ok (.inr r) => .ok r
    | .error e => .error e

section
variable {endless : ε} {body : σ → Except ε (σ ⊕ ρ)} {s s' : σ}

lemma untilDone_inl (h : body s = .ok (.inl s')) (n : Nat) :
    untilDone endless body (n + 1) s = untilDone endless body n s' := by rw [untilDone, h]

lemma untilDone_inr {r : ρ} (h : body s = .ok (.inr r)) (n : Nat) :
    untilDone endless body (n + 1) s = .ok r := by rw [untilDone, h]

lemma untilDone_error {e : ε} (h : body s = .error e) (n : Nat) :
    untilDone endless body (n + 1) s = .error e := by rw [untilDone, h]

lemma untilDone_succ (n : Nat) :
    untilDone endless body (n + 1) s = body s >>= Sum.elim (untilDone endless body n) .ok := by
  rw [untilDone]
  cases body s with
  | error e => rfl
  | ok x => cases x <;> rfl

lemma untilDone_mono {m n : Nat} {r : ρ} (h : untilDone endless body m s = .ok r) (hmn : m ≤ n) :
    untilDone endless body n s = .ok r := by
  induction m generalizing n s with
  | zero => cases h
  | succ m ih =>
    obtain ⟨n, rfl⟩ := Nat.exists_eq_add_of_le' (Nat.le_of_add_left_le hmn)
    cases hx : body s with
    | error e => rw [untilDone_error hx] at h; cases h
    | ok x =>
      cases x with
      | inl s' =>
        rw [untilDone_inl hx] at h ⊢
        exact ih h (Nat.le_of_succ_le_succ hmn)
      | inr r' => rwa [untilDone_inr hx] at h ⊢

lemma untilDone_invariant (inv : σ → Prop) (post : ρ → Prop)
    (hbody : ∀ s, inv s → ∀ x, body s = .ok x → Sum.elim inv post x) (hs : inv s) {n : Nat} {r : ρ}
    (h : untilDone endless body n s = .ok r) : post r := by
  induction n generalizing s with
  | zero => cases h
  | succ n ih =>
    cases hx : body s with
    | error e => rw [untilDone_error hx] at h; cases h
    | ok x =>
      have hinv := hbody s hs x hx
      cases x with
      | inl s' => exact ih hinv (untilDone_inl hx n ▸ h)
      | inr r' =>
        rw [untilDone_inr hx] at h
        cases h
        exact hinv

lemma untilDone_total (endless : ε) {β : Type} [LT β] [WellFoundedLT β] (progress : σ → β) (inv : σ → Prop)
    (post : ρ → Prop)
    (hbody : ∀ s, inv s → (∃ r, body s = .ok (.inr r) ∧ post r) ∨
      ∃ s', body s = .ok (.inl s') ∧ inv s' ∧ progress s' < progress s) (hs : inv s) :
    ∃ r, post r ∧ ∃ rounds, ∀ n, rounds ≤ n → untilDone endless body n s = .ok r := by
  obtain ⟨b, hb⟩ : ∃ b, b = progress s := ⟨_, rfl⟩
  induction b using WellFoundedLT.induction generalizing s with
  | ind b ih =>
    subst hb
    rcases hbody s hs with ⟨r, he, hr⟩ | ⟨s', he, hs', hlt⟩
    · refine ⟨r, hr, 1, fun n hn => ?_⟩
      obtain ⟨k, rfl⟩ := Nat.exists_eq_add_of_le' hn
      exact untilDone_inr he k
    · obtain ⟨r, hr, rounds, hrounds⟩ := ih _ hlt hs' rfl
      refine ⟨r, hr, rounds + 1, fun n hn => ?_⟩
      obtain ⟨k, rfl⟩ := Nat.exists_eq_add_of_le' (Nat.le_of_add_left_le hn)
      rw [untilDone_inl he]
      exact hrounds k (by omega)

lemma untilDone_rule (inv : σ → Prop) (post : ρ → Prop) (measure : σ → Nat)
    (hbody : ∀ s, inv s → (∃ r, body s = .ok (.inr r) ∧ post r) ∨
      ∃ s', body s = .ok (.inl s') ∧ inv s' ∧ measure s' < measure s) (hs : inv s) {n : Nat}
    (hn : measure s < n) : ∃ r, untilDone endless body n s = .ok r ∧ post r := by
  induction n generalizing s with
  | zero => exact absurd hn (Nat.not_lt_zero _)
  | succ n ih =>
    rcases hbody s hs with ⟨r, he, hr⟩ | ⟨s', he, hs', hlt⟩
    · exact ⟨r, untilDone_inr he n, hr⟩
    · rw [untilDone_inl he]
      exact ih hs' (hlt.trans_le (Nat.le_of_lt_succ hn))

lemma untilDone_returns (inv : σ → Prop) (measure : σ → Nat)
    (hbody : ∀ s, inv s → (∃ r, body s = .ok (.inr r)) ∨
      ∃ s', body s = .ok (.inl s') ∧ inv s' ∧ measure s' < measure s) (hs : inv s) {n : Nat}
    (hn : measure s < n) : ∃ r, untilDone endless body n s = .ok r :=
  (untilDone_rule inv (fun _ => True) measure
    (fun s hs => (hbody s hs).imp_left fun ⟨r, he⟩ => ⟨r, he, trivial⟩) hs hn).imp fun _ => And.left

end

/-- `for (uint index = …; index < limit; index++) body`, for at most `n` guard tests. -/
def uintSteps (limit : Nat) (body : σ → Nat → Except ε σ) :
    Nat → UInt32 → σ → Except ε (Option σ)
  | 0, _, _ => .ok none
  | n + 1, index, s =>
    if index.toNat < limit then do
      let s' ← body s index.toNat
      uintSteps limit body n (index + 1) s'
    else .ok (some s)

/-- The loop from `index = 0`; a counter that reaches `limit` does so within `limit + 1` tests. -/
def forUint (limit : Nat) (endless : ε) (body : σ → Nat → Except ε σ) (s : σ) : Except ε σ :=
  match uintSteps limit body (limit + 1) 0 s with
  | .ok (some s') => .ok s'
  | .ok none => .error endless
  | .error e => .error e

variable {limit : Nat}

lemma uintSteps_eq_foldlM (body : σ → Nat → Except ε σ) (hlim : limit < 2 ^ 32)
    (k : Nat) (index : UInt32) (hk : index.toNat + k = limit) (s : σ) :
    uintSteps limit body (k + 1) index s =
      (List.range' index.toNat k).foldlM body s >>= fun s' => .ok (some s') := by
  induction k generalizing index s with
  | zero =>
    rw [uintSteps, if_neg (by omega)]
    rfl
  | succ k ih =>
    have hnext : (index + 1).toNat = index.toNat + 1 := by
      exact Nat.mod_eq_of_lt (by simp; omega)
    rw [uintSteps, if_pos (by omega), List.range'_succ, List.foldlM_cons, bind_assoc]
    refine bind_congr fun s' => ?_
    rw [ih (index + 1) (by omega), hnext]

lemma uintSteps_endless (body : σ → Nat → Except ε σ) (hlim : 2 ^ 32 ≤ limit)
    (n : Nat) (index : UInt32) (s s' : σ) : uintSteps limit body n index s ≠ .ok (some s') := by
  induction n generalizing index s with
  | zero => simp [uintSteps]
  | succ n ih =>
    have hguard : index.toNat < limit := lt_of_lt_of_le index.toNat_lt hlim
    rw [uintSteps, if_pos hguard]
    cases hb : body s index.toNat with
    | error e => simp [bind, Except.bind]
    | ok s1 => exact ih (index + 1) s1

lemma forUint_eq_foldlM (endless : ε) (body : σ → Nat → Except ε σ) (s : σ)
    (hlim : limit < 2 ^ 32) :
    forUint limit endless body s = (List.range limit).foldlM body s := by
  have hrun := uintSteps_eq_foldlM body hlim limit 0 (by simp) s
  rw [show List.range' (UInt32.toNat 0) limit = List.range limit from
    List.range_eq_range'.symm] at hrun
  rw [forUint, hrun]
  cases (List.range limit).foldlM body s <;> rfl

lemma lt_of_forUint_eq_ok {endless : ε} {body : σ → Nat → Except ε σ} {s s' : σ}
    (h : forUint limit endless body s = .ok s') : limit < 2 ^ 32 := by
  by_contra hge
  rw [forUint] at h
  split at h
  · next t ht => exact uintSteps_endless body (not_lt.mp hge) _ _ _ _ ht
  · cases h
  · cases h

lemma forUint_endless (endless : ε) {body : σ → Nat → Except ε σ}
    (inv : σ → Prop) (hbody : ∀ s i, inv s → ∃ s', body s i = .ok s' ∧ inv s') {s : σ}
    (hs : inv s) (hlim : 2 ^ 32 ≤ limit) : forUint limit endless body s = .error endless := by
  have hrun : ∀ n (index : UInt32) s, inv s → uintSteps limit body n index s = .ok none := by
    intro n
    induction n with
    | zero => intro _ _ _; rfl
    | succ n ih =>
      intro index s hs
      obtain ⟨s', hb, hs'⟩ := hbody s index.toNat hs
      rw [uintSteps, if_pos (lt_of_lt_of_le index.toNat_lt hlim), hb]
      exact ih (index + 1) s' hs'
  rw [forUint, hrun _ _ _ hs]

lemma foldlM_flatten {m : Type → Type} [Monad m] [LawfulMonad m] {α : Type} (f : σ → α → m σ)
    (s : σ) (ls : List (List α)) :
    ls.foldlM (fun s l => l.foldlM f s) s = ls.flatten.foldlM f s := by
  induction ls generalizing s with
  | nil => rfl
  | cons l ls ih =>
    rw [List.flatten_cons, List.foldlM_append]
    exact bind_congr fun s' => ih s'

end Loop
