import Czmq.Zhashx.Wellformed

/-! The index into the primes table over whole runs. It stays inside exactly when every operation
fits, and leaves when all keys collide: each new key walks past the others and grows the table by
five entries. -/

namespace Czmq

open Machine List

variable {K V : Type}

namespace Zhashx

variable {t t' : Zhashx K V}

lemma next_frame {v : Option V} (h : t.next = .ok (v, t')) :
    t'.primeIndex = t.primeIndex ∧ t'.items = t.items ∧ t'.size = t.size ∧ t'.fresh = t.fresh ∧
      t'.fn = t.fn := by
  rw [next] at h
  cases hloop : Loop.whileLoop (fun s => s.1.cursorItem.isNone && !s.2) skipBucket (t.limit + 1)
      (t, false) with
  | none => rw [hloop] at h; cases h
  | some s =>
    have hinv := Loop.whileLoop_invariant
      (fun s : Zhashx K V × Bool => s.1.primeIndex = t.primeIndex ∧ s.1.items = t.items ∧
        s.1.size = t.size ∧ s.1.fresh = t.fresh ∧ s.1.fn = t.fn)
      (fun s hs _ => by
        rw [skipBucket]
        split
        · exact hs
        · exact hs)
      ⟨rfl, rfl, rfl, rfl, rfl⟩ hloop
    rw [hloop] at h
    obtain ⟨u, flag⟩ := s
    cases flag with
    | true =>
      cases h
      exact hinv.1
    | false =>
      dsimp only at h
      split at h
      · cases h
      · split at h
        · cases h
          exact hinv.1
        · cases h

lemma next_ne_outOfBounds (t : Zhashx K V) (i : Nat) : t.next ≠ .error (.outOfBounds i) := by
  rw [next]
  split
  · simp
  · simp
  · split
    · simp
    · split <;> simp

lemma first_frame {v : Option V} (h : t.first = .ok (v, t')) :
    t'.primeIndex = t.primeIndex ∧ t'.items = t.items ∧ t'.size = t.size ∧ t'.fresh = t.fresh ∧
      t'.fn = t.fn :=
  next_frame (t := { t with cursorIndex := 0, cursorItem := t.firstOf 0 }) h

lemma After.of_frame (h : Shape t) (hf : t'.primeIndex = t.primeIndex ∧ t'.items = t.items ∧
    t'.size = t.size ∧ t'.fresh = t.fresh ∧ t'.fn = t.fn) : After t t' := by
  obtain ⟨hp, hi, hs, hfr, -⟩ := hf
  refine ⟨h.congr hp hi hs hfr, fun _ ht => ?_⟩
  rwa [hs, limit, hp]

lemma step_of_fits (h : Shape t) (op : TableOp K V) (hfit : t.Fits op) :
    (∃ r t', t.step op = .ok (r, t') ∧ After t t') ∨
      ∃ e, t.step op = .error e ∧ ∀ i, e ≠ .outOfBounds i := by
  cases op with
  | map op =>
    rcases mapStep_of_fits h op hfit with hok | hloop
    · exact .inl hok
    · exact .inr ⟨.endlessLoop, hloop, fun i => by simp⟩
  | first =>
    cases hf : t.first with
    | ok p => exact .inl ⟨.ptr p.1, p.2, by rw [step, hf]; rfl, .of_frame h (first_frame hf)⟩
    | error e =>
      refine .inr ⟨e, by rw [step, hf]; rfl, fun i he => ?_⟩
      exact next_ne_outOfBounds _ i (he ▸ hf)
  | next =>
    cases hf : t.next with
    | ok p => exact .inl ⟨.ptr p.1, p.2, by rw [step, hf]; rfl, .of_frame h (next_frame hf)⟩
    | error e =>
      refine .inr ⟨e, by rw [step, hf]; rfl, fun i he => ?_⟩
      exact next_ne_outOfBounds _ i (he ▸ hf)
  | setDestructor | setDuplicator | setKeyDestructor | setKeyDuplicator | setKeyComparator
  | setKeyHasher => exact .inl ⟨.void, _, rfl, h.congr rfl rfl rfl rfl, fun _ ht => ht⟩

lemma step_of_not_fits (h : Shape t) (op : TableOp K V) (hfit : ¬ t.Fits op) :
    ∃ i, t.step op = .error (.outOfBounds i) := by
  cases op with
  | map op => exact mapStep_of_not_fits h op hfit
  | _ => exact absurd trivial hfit

lemma after_step {op : TableOp K V} {r : Result V} (h : Shape t)
    (hstep : t.step op = .ok (r, t')) : After t t' := by
  by_cases hfit : t.Fits op
  · rcases step_of_fits h op hfit with ⟨r', u, hok, ha⟩ | ⟨e, he, _⟩
    · cases hok.symm.trans hstep
      exact ha
    · cases he.symm.trans hstep
  · obtain ⟨i, he⟩ := step_of_not_fits h op hfit
    cases he.symm.trans hstep

/-- In a run from a new table, no read of `primes` is out of bounds. -/
def PrimesInBounds (fn : Callbacks K V) (ops : List (TableOp K V)) : Prop :=
  (∀ i, run step (new fn) ops ≠ .error (.outOfBounds i)) ∧
    ∀ pre post, ops = pre ++ post → ∀ rs t, run step (new fn) pre = .ok (rs, t) →
      t.primeIndex < primes.length

lemma run_ne_outOfBounds_iff (h : Shape t) (ops : List (TableOp K V)) :
    (∀ i, run step t ops ≠ .error (.outOfBounds i)) ↔
      StepsMeet step Fits t ops := by
  induction ops generalizing t with
  | nil => exact ⟨fun _ => stepsMeet_nil t, fun _ i => by simp [run]⟩
  | cons op ops ih =>
    by_cases hfit : t.Fits op
    · rcases step_of_fits h op hfit with ⟨r, t', hok, hs⟩ | ⟨e, he, hne⟩
      · have hiff : (∀ i, run step t (op :: ops) ≠ .error (.outOfBounds i)) ↔
            ∀ i, run step t' ops ≠ .error (.outOfBounds i) := by
          refine forall_congr' fun i => not_congr ?_
          rw [run_cons_ok hok]
          cases run step t' ops <;> simp [Except.map]
        rw [hiff, ih hs.shape]
        constructor
        · intro hmeet
          refine StepsMeet.cons hfit fun r1 t1 h1 => ?_
          rw [hok] at h1
          cases h1
          exact hmeet
        · exact fun hmeet => hmeet.tail hok
      · refine ⟨fun _ => StepsMeet.cons hfit fun r1 t1 h1 => ?_, fun _ i => ?_⟩
        · rw [he] at h1
          cases h1
        · rw [run_cons_error he]
          exact fun heq => hne i (Except.error.inj heq)
    · obtain ⟨i, he⟩ := step_of_not_fits h op hfit
      refine ⟨fun hno => absurd (run_cons_error he ops) (hno i), fun hmeet => ?_⟩
      exact absurd hmeet.head hfit

/-- The index stays inside the primes table in exactly the runs whose growth steps have room. -/
theorem primesInBounds_iff (fn : Callbacks K V) (ops : List (TableOp K V)) :
    PrimesInBounds fn ops ↔ StepsMeet step Fits (new fn) ops := by
  rw [← run_ne_outOfBounds_iff (shape_new fn)]
  refine ⟨fun h => h.1, fun h => ⟨h, fun pre post _ rs t hrun => ?_⟩⟩
  exact (run_invariant (fun _ _ _ _ hs he => (after_step hs he).shape) (shape_new fn) hrun).prime_lt

/-- In every state of a run the load factor is kept, whatever the callbacks are, and there are as
many buckets as the prime says. -/
theorem load_bound (fn : Callbacks K V) {ops : List (TableOp K V)} {rs : List (Result V)}
    (hrun : run step (new fn) ops = .ok (rs, t)) :
    t.size ≤ primes.getD t.primeIndex 0 * loadFactor / 100 ∧
      t.items.length = primes.getD t.primeIndex 0 := by
  have hcap : Bounds fun n => n * loadFactor / 100 := ⟨fun _ => le_rfl, by decide +kernel⟩
  let inv (t : Zhashx K V) : Prop := Shape t ∧ t.size ≤ t.limit * loadFactor / 100
  have hinv : inv t := by
    refine run_invariant (fun s op r s' hs he => ?_) ⟨shape_new fn, Nat.zero_le _⟩ hrun
    exact ⟨(after_step hs.1 he).shape, (after_step hs.1 he).bound hcap hs.2⟩
  exact ⟨hinv.2, hinv.1.length_eq⟩

/-! ## Keys that all collide -/

/-- The defaults of `zhashx_new` with a hasher that is constantly 0. -/
def colliding [DecidableEq K] : Callbacks K V where
  duplicator := none
  destructor := false
  keyDuplicator := some id
  keyDestructor := true
  keyComparator := fun a b => if a = b then 0 else 1
  hasher := fun _ => 0

section
variable [DecidableEq K]

theorem load_bound_two : ∃ rs t, run step (new colliding)
    [.map (.insert 1 (some 1)), .map (.insert 2 (some 2))] = .ok (rs, t) ∧ t.size = 2 ∧
      2 ≤ primes.getD t.primeIndex 0 * loadFactor / 100 := by
  have hsize : (run step (new colliding) [.map (.insert 1 (some 1)),
      .map (.insert 2 (some 2))]).toOption.map (·.2.size) = some 2 := by decide +kernel
  cases hrun : run step (new colliding)
      [.map (.insert 1 (some 1)), .map (.insert 2 (some 2))] with
  | error e =>
    rw [hrun] at hsize
    cases hsize
  | ok p =>
    rw [hrun] at hsize
    have htwo : p.2.size = 2 := Option.some.inj hsize
    exact ⟨p.1, p.2, rfl, htwo, htwo ▸ (load_bound _ hrun).1⟩

lemma colliding_lawful : (colliding : Callbacks K V).Lawful where
  refl := fun a => by simp [colliding]
  symm := fun a b h => by
    have : a = b := by by_contra hne; simp [colliding, hne] at h
    simp [colliding, this]
  trans := fun a b c hab hbc => by
    have h1 : a = b := by by_contra hne; simp [colliding, hne] at hab
    have h₂ : b = c := by by_contra hne; simp [colliding, hne] at hbc
    simp [colliding, h1, h₂]
  hash_eq := fun _ _ _ => rfl
  dup_key := fun a => by simp [colliding, Callbacks.dupKey]

omit [DecidableEq K] in
lemma walk_snd_of_none (fn : Callbacks K V) (key : K) (chain : List (Item K V)) (len : UInt32)
    (h : ∀ it ∈ chain, fn.sameKey it key = false) :
    (walk fn key chain len).2.toNat = (len.toNat + chain.length) % 2 ^ 32 := by
  induction chain generalizing len with
  | nil => exact (Nat.mod_eq_of_lt len.toNat_lt).symm
  | cons it chain ih =>
    have hit : fn.sameKey it key = false := h it (mem_cons_self ..)
    rw [walk, if_neg (by simp [hit]), ih _ fun x hx => h x (mem_cons_of_mem _ hx),
      UInt32.toNat_add, length_cons]
    simp only [UInt32.toNat_one, Nat.mod_add_mod]
    congr 1
    omega

/-- A table of the first `n` keys, all in the first bucket. -/
structure Pile (key : Nat → K) (n : Nat) (t : Zhashx K V) : Prop where
  wf : Wf t
  fn_eq : t.fn = colliding
  size_eq : t.size = n
  keys : ∀ e ∈ t.entries, ∃ i < n, e.key = key i

variable {key : Nat → K} {n : Nat} {t : Zhashx K V}

lemma Pile.bucket_eq (h : Pile key n t) (k : K) : t.bucket k = 0 := by
  simp [bucket, h.fn_eq, colliding]

lemma Pile.chain_all (h : Pile key n t) : t.items.getD 0 [] = t.all := by
  refine (Buckets.flatten_eq_getD fun j hj => eq_nil_iff_forall_not_mem.mpr fun it hit => ?_).symm
  have hin := Buckets.mem_flatten_of_mem_getD hit
  exact hj ((h.wf.placed j it hit).symm.trans ((h.wf.hashed it hin).trans (h.bucket_eq it.key)))

lemma Pile.sameKey_false (h : Pile key n t) (hkey : key.Injective) {it : Item K V}
    (hit : it ∈ t.all) : t.fn.sameKey it (key n) = false := by
  obtain ⟨i, hi, he⟩ := h.keys _ (mem_entries_of_mem_all hit)
  have hk : it.key ≠ key n := by
    intro hk
    have := hkey (he.symm.trans hk)
    omega
  rw [h.fn_eq]
  simp [Callbacks.sameKey, colliding, hk]

lemma Pile.chainTooLong_iff (h : Pile key n t) (hkey : key.Injective) (hn : n < 2 ^ 32) :
    t.chainTooLong (key n) = true ↔ t.chainLimit < n := by
  have hlen : t.all.length = n := h.wf.size_eq.symm.trans h.size_eq
  rw [chainTooLong, h.bucket_eq, h.chain_all,
    walk_snd_of_none _ _ _ _ fun it hit => h.sameKey_false hkey hit, hlen, decide_eq_true_eq]
  simp only [UInt32.toNat_zero, Nat.zero_add, Nat.mod_eq_of_lt hn]

lemma Pile.find_eq_none (h : Pile key n t) (hkey : key.Injective) : t.find (key n) = none := by
  rw [find, h.bucket_eq, h.chain_all, find?_eq_none]
  intro it hit
  simp [h.sameKey_false hkey hit]

lemma Pile.loaded (h : Pile key n t) (hfit : t.LoadFits) : Pile key n t.loaded where
  wf := wf_loaded h.wf (h.fn_eq ▸ colliding_lawful) hfit
  fn_eq := (loaded_fn t).trans h.fn_eq
  size_eq := by
    rw [(shape_loaded h.wf.toShape hfit).size_eq, ← length_entries,
      (entries_loaded_perm hfit).length_eq, length_entries, ← h.wf.size_eq, h.size_eq]
  keys := fun e he => h.keys e ((entries_loaded_perm hfit).mem_iff.mp he)

lemma Pile.looked (h : Pile key n t) {k : K} (hfit : t.LookupFits k) :
    Pile key n (t.looked k) where
  wf := wf_looked h.wf (h.fn_eq ▸ colliding_lawful) hfit
  fn_eq := (looked_fn t k).trans h.fn_eq
  size_eq := by
    rw [(shape_looked h.wf.toShape hfit).size_eq, ← length_entries,
      (entries_looked_perm hfit).length_eq, length_entries, ← h.wf.size_eq, h.size_eq]
  keys := fun e he => h.keys e ((entries_looked_perm hfit).mem_iff.mp he)

structure Collided (key : Nat → K) (n : Nat) (t : Zhashx K V) : Prop extends Pile key n t where
  prime_eq : t.primeIndex = growthFactor * (n - 2)
  chain_eq : t.chainLimit = max 1 (n - 1)

lemma collided_new (key : Nat → K) : Collided key 0 (new colliding : Zhashx K V) :=
  ⟨⟨wf_new _, rfl, rfl, by simp [new, entries, all]⟩, rfl, rfl⟩

lemma Pile.added (h : Pile key n t) (hkey : key.Injective) (value : Option V)
    (hindex : t.cachedIndex = t.bucket (key n)) : Pile key (n + 1) (t.added (key n) value) := by
  have hfn : t.fn.Lawful := h.fn_eq ▸ colliding_lawful
  have hnew : t.entryOf (key n) = none :=
    (h.wf.find_eq_none_iff hfn _).mp (h.find_eq_none hkey)
  have hperm := entries_added_perm h.wf.toShape hfn value hindex
  refine ⟨wf_added h.wf hfn value hindex hnew, h.fn_eq, ?_, ?_⟩
  · change t.size + 1 = n + 1
    rw [h.size_eq]
  · intro e he
    rcases mem_cons.mp (hperm.mem_iff.mp he) with rfl | he
    · refine ⟨n, Nat.lt_succ_self n, ?_⟩
      simp [newEntry, h.fn_eq, colliding, Callbacks.dupKey]
    · obtain ⟨i, hi, hk⟩ := h.keys e he
      exact ⟨i, by omega, hk⟩

lemma Collided.overloaded_iff (h : Collided key n t) (hn : n < 62) :
    t.overloaded = true ↔ n = 2 := by
  rw [overloaded, limit, h.prime_eq, h.size_eq, decide_eq_true_eq]
  clear h
  revert n
  decide +kernel

lemma Collided.loadFits (h : Collided key n t) (hn : n < 62) : t.LoadFits := by
  intro hload
  have h2 := (h.overloaded_iff hn).mp hload
  rw [HasRoom, h.prime_eq, primes_length, growthFactor]
  omega

lemma Collided.loaded_chainLimit_eq (h : Collided key n t) (hn : n < 62) :
    t.loaded.chainLimit = if n = 2 then 2 else max 1 (n - 1) := by
  simp only [loaded, apply_ite chainLimit, grown, h.overloaded_iff hn, h.chain_eq, chainGrows]
  split_ifs <;> omega

lemma Collided.loaded_primeIndex_eq (h : Collided key n t) (hn : n < 62) :
    t.loaded.primeIndex = if n = 2 then growthFactor else growthFactor * (n - 2) := by
  simp only [loaded, apply_ite primeIndex, grown, rehashed, h.overloaded_iff hn, h.prime_eq,
    growthFactor]
  split_ifs <;> omega

lemma Collided.chainTooLong_loaded (h : Collided key n t) (hkey : key.Injective) (hn : n < 62) :
    t.loaded.chainTooLong (key n) = true ↔ 3 ≤ n := by
  rw [(h.toPile.loaded (h.loadFits hn)).chainTooLong_iff hkey (by omega),
    h.loaded_chainLimit_eq hn]
  split_ifs <;> omega

lemma Collided.insertFits (h : Collided key n t) (hkey : key.Injective) (hn : n < 61) :
    t.InsertFits (key n) := by
  refine ⟨h.loadFits (by omega), fun hlong => ?_⟩
  have h3 := (h.chainTooLong_loaded hkey (by omega)).mp hlong
  rw [HasRoom, h.loaded_primeIndex_eq (by omega), primes_length, growthFactor]
  split_ifs <;> omega

lemma Collided.insert (h : Collided key n t) (hkey : key.Injective) (hn : n < 61)
    (value : Option V) :
    ∃ t', t.insert (key n) value = .ok (0, t') ∧ Collided key (n + 1) t' := by
  have hfit := h.insertFits hkey hn
  have hloaded := h.toPile.loaded hfit.1
  have hlooked := hloaded.looked hfit.2
  refine ⟨(t.loaded.looked (key n)).added (key n) value, ?_, ?_, ?_, ?_⟩
  · rw [insert_of_fits value hfit, hloaded.find_eq_none hkey]
  · exact hlooked.added hkey value (looked_cachedIndex _ _)
  · change (t.loaded.looked (key n)).primeIndex = _
    simp only [looked, apply_ite primeIndex, grown, rehashed,
      h.chainTooLong_loaded hkey (by omega : n < 62), h.loaded_primeIndex_eq (by omega : n < 62), growthFactor]
    split_ifs <;> omega
  · change (t.loaded.looked (key n)).chainLimit = _
    simp only [looked, apply_ite chainLimit, grown,
      h.chainTooLong_loaded hkey (by omega : n < 62), h.loaded_chainLimit_eq (by omega : n < 62), chainGrows]
    split_ifs <;> omega

end

lemma replicate_succ_injective (c : UInt8) :
    Function.Injective fun i => replicate (i + 1) c := by
  intro i j h
  have := congrArg length h
  simpa using this

/-- Sixty-two keys with one hash lead to a read of `primes [300]`. -/
theorem primes_overrun : ¬ PrimesInBounds (colliding : Callbacks (List UInt8) Nat)
    ((range 62).map fun i => .map (.insert (replicate (i + 1) 97) (some i))) := by
  have hkey := replicate_succ_injective 97
  obtain ⟨-, rs, t, hrun, hinv⟩ := run_map_range (P := Fits) step
    (Collided fun i => replicate (i + 1) (97 : UInt8))
    (fun i => .map (.insert (replicate (i + 1) 97) (some i)))
    (fun i hi s hs => by
      obtain ⟨t', he, ht'⟩ := hs.insert hkey hi (some i)
      exact ⟨hs.insertFits hkey hi, .rc 0, t', by rw [step, mapStep, he]; rfl, ht'⟩)
    (collided_new _)
  rintro ⟨hno, _⟩
  have hmeet := (run_ne_outOfBounds_iff (shape_new _) _).mp hno
  have hfit : t.Fits (.map (.insert (replicate (61 + 1) 97) (some 61))) :=
    hmeet _ _ [] (by rw [range_succ]; rfl) rs t hrun
  have hroom := hfit.2 ((hinv.chainTooLong_loaded hkey (by omega)).mpr (by omega))
  rw [HasRoom, hinv.loaded_primeIndex_eq (by omega), primes_length, growthFactor] at hroom
  simp at hroom

end Zhashx

end Czmq
