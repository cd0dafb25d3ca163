import Czmq.Zchunk.Chunk

/-! Sequences of calls on a chunk. `zchunk_digest` keeps its digest, which most other calls drop.
`zchunk_dup` copies the whole block, in use or not. -/

namespace Czmq.Zchunk

open Machine

abbrev Buffer : Type := { bytes : List UInt8 // bytes.length < 2 ^ 63 }

abbrev Other : Type := { c : Zchunk // c.Valid }

inductive Op where
  | set (data : Buffer)
  | setNull (size : Nat)
  | fill (filler : UInt8) (size : Nat)
  | append (data : Buffer)
  | extend (data : Buffer) (fresh : Nat → UInt8)
  | consume (source : Other)
  | consumeSelf
  | consumedBy (target : Other)
  | resize (size : Nat) (fresh : Nat → UInt8)
  | digest

inductive Answer where
  | nothing
  | size (n : Nat)
  | string (text : List UInt8)
  deriving DecidableEq

section
variable (sha1 : List UInt8 → Fin 20 → UInt8)

def step (c : Zchunk) : Op → Except Fault (Answer × Zchunk)
  | .set data => (c.set (some data.1) data.1.length).map (Prod.map .size id)
  | .setNull size => (c.set none size).map (Prod.map .size id)
  | .fill filler size => (c.fill filler size).map (Prod.map .size id)
  | .append data => (c.append data.1).map (Prod.map .size id)
  | .extend data fresh => (c.extend fresh data.1).map (Prod.map .size id)
  | .consume source => (c.consume source.1).map fun r => (.size r.1, r.2.1)
  | .consumeSelf => c.consumeSelf.map (Prod.map .size id)
  | .consumedBy target => (target.1.consume c).map fun r => (.size r.1, r.2.2)
  | .resize size fresh => (c.resize fresh size).map fun c => (.nothing, c)
  | .digest => (c.digest sha1).map (Prod.map .string id)

def Right (c : Zchunk) (op : Op) : Prop :=
  ∃ r c', step sha1 c op = .ok (r, c') ∧
    (op = .digest → r = .string (Zdigest.printable (sha1 c.contents)))

end

/-- A digest is taken only where none is kept, and the other calls find memory. -/
def Allowed (c : Zchunk) : Op → Prop
  | .digest => c.cached = none
  | .extend data _ =>
    c.size + data.1.length ≤ c.maxSize ∨ 2 * (c.size + data.1.length) < 2 ^ 63
  | .consume source => Transfers c source.1
  | .consumeSelf => Transfers c c
  | .consumedBy target => Transfers target.1 c
  | .resize size _ => size < 2 ^ 63
  | .set _ | .setNull _ | .fill _ _ | .append _ => True

instance (c : Zchunk) : (op : Op) → Decidable (Allowed c op)
  | .digest => inferInstanceAs (Decidable (c.cached = none))
  | .extend data _ => inferInstanceAs (Decidable
      (c.size + data.1.length ≤ c.maxSize ∨ 2 * (c.size + data.1.length) < 2 ^ 63))
  | .consume source => inferInstanceAs (Decidable (Transfers c source.1))
  | .consumeSelf => inferInstanceAs (Decidable (Transfers c c))
  | .consumedBy target => inferInstanceAs (Decidable (Transfers target.1 c))
  | .resize size _ => inferInstanceAs (Decidable (size < 2 ^ 63))
  | .set _ | .setNull _ | .fill _ _ | .append _ => inferInstanceAs (Decidable True)

variable {sha1 : List UInt8 → Fin 20 → UInt8} {c : Zchunk}

lemma step_spec (h : c.Valid) {op : Op} (hop : Allowed c op) :
    ∃ r c', step sha1 c op = .ok (r, c') ∧ c'.Valid ∧
      (op = .digest → r = .string (Zdigest.printable (sha1 c.contents))) := by
  cases op with
  | set data =>
    obtain ⟨c', hok, hvalid, -⟩ := set_spec h data.1
    exact ⟨_, c', by rw [step, hok]; rfl, hvalid, by simp⟩
  | setNull size =>
    obtain ⟨c', hok, hvalid, -⟩ := setNull_spec h size
    exact ⟨_, c', by rw [step, hok]; rfl, hvalid, by simp⟩
  | fill filler size =>
    obtain ⟨c', hok, hvalid, -⟩ := fill_spec h filler size
    exact ⟨_, c', by rw [step, hok]; rfl, hvalid, by simp⟩
  | append data =>
    obtain ⟨c', hok, hvalid, -⟩ := append_spec h data.2
    exact ⟨_, c', by rw [step, hok]; rfl, hvalid, by simp⟩
  | extend data fresh =>
    obtain ⟨c', hok, hvalid, -⟩ := extend_spec h hop fresh
    exact ⟨_, c', by rw [step, hok]; rfl, hvalid, by simp⟩
  | consume source =>
    obtain ⟨c', source', hok, hvalid, -⟩ := consume_spec h source.2 hop
    exact ⟨_, c', by rw [step, hok]; rfl, hvalid, by simp⟩
  | consumeSelf =>
    obtain ⟨c', hok, hvalid, -⟩ := consumeSelf_spec h hop
    exact ⟨_, c', by rw [step, hok]; rfl, hvalid, by simp⟩
  | consumedBy target =>
    obtain ⟨target', c', hok, -, hvalid, -⟩ := consume_spec target.2 h hop
    exact ⟨_, c', by rw [step, hok]; rfl, hvalid, by simp⟩
  | resize size fresh =>
    obtain ⟨c', hok, hvalid, -⟩ := resize_spec h hop fresh
    exact ⟨_, c', by rw [step, hok]; rfl, hvalid, by simp⟩
  | digest =>
    obtain ⟨c', hok, hvalid⟩ := digest_spec h sha1 hop
    exact ⟨_, c', by rw [step, hok]; rfl, hvalid, fun _ => rfl⟩

lemma allowed_of_step_eq_ok (h : c.Valid) {op : Op} {r : Answer} {c' : Zchunk}
    (hok : step sha1 c op = .ok (r, c')) : Allowed c op := by
  cases op with
  | set | setNull | fill | append => exact trivial
  | extend data fresh =>
    obtain ⟨⟨n, c'⟩, hok, -⟩ := exists_of_map_eq_ok hok
    exact fits_of_extend_eq_ok h data.2 hok
  | consume source =>
    obtain ⟨⟨n, c', source'⟩, hok, -⟩ := exists_of_map_eq_ok hok
    exact transfers_of_consume_eq_ok h source.2 hok
  | consumeSelf =>
    obtain ⟨⟨n, c'⟩, hok, -⟩ := exists_of_map_eq_ok hok
    obtain ⟨⟨n, target, source⟩, hok, -⟩ := bind_eq_ok.mp hok
    exact transfers_of_consume_eq_ok h h hok
  | consumedBy target =>
    obtain ⟨⟨n, target', c'⟩, hok, -⟩ := exists_of_map_eq_ok hok
    exact transfers_of_consume_eq_ok target.2 h hok
  | resize size fresh =>
    obtain ⟨c', hok, -⟩ := exists_of_map_eq_ok hok
    obtain ⟨block, hblock, -⟩ := bind_eq_ok.mp hok
    exact lt_of_allocate_eq_ok hblock
  | digest =>
    obtain ⟨⟨string, c'⟩, hok, -⟩ := exists_of_map_eq_ok hok
    obtain ⟨bytes, -, hok⟩ := bind_eq_ok.mp hok
    obtain ⟨digest, hupdate, -⟩ := bind_eq_ok.mp hok
    cases hcached : c.cached with
    | none => exact hcached
    | some before =>
      rw [hcached, Option.getD_some, Zdigest.update, if_pos (h.final before hcached)] at hupdate
      cases hupdate

lemma right_iff_allowed (h : c.Valid) (op : Op) : Right sha1 c op ↔ Allowed c op := by
  constructor
  · rintro ⟨r, c', hok, -⟩
    exact allowed_of_step_eq_ok h hok
  · intro hop
    obtain ⟨r, c', hok, -, hstring⟩ := step_spec h hop
    exact ⟨r, c', hok, hstring⟩

lemma valid_run (h : c.Valid) {ops : List Op} {rs : List Answer} {c' : Zchunk}
    (hrun : run (step sha1) c ops = .ok (rs, c')) : c'.Valid := by
  refine run_invariant (fun c op r c' h hok => ?_) h hrun
  obtain ⟨r', c1, hok', hvalid, -⟩ := step_spec h (allowed_of_step_eq_ok h hok)
  cases hok.symm.trans hok'
  exact hvalid

/-- A sequence of calls returns, every digest that of the contents, exactly when each
`zchunk_digest` finds none that is kept and the other calls find memory. -/
theorem digests_right_iff (h : c.Valid) (ops : List Op) :
    ((∃ rs c', run (step sha1) c ops = .ok (rs, c')) ∧
        StepsMeet (step sha1) (Right sha1) c ops) ↔
      StepsMeet (step sha1) Allowed c ops := by
  have hiff : StepsMeet (step sha1) (Right sha1) c ops ↔
      StepsMeet (step sha1) Allowed c ops := by
    constructor <;> intro hmeet pre op post he rs c' hrun
    · exact (right_iff_allowed (valid_run h hrun) op).mp (hmeet pre op post he rs c' hrun)
    · exact (right_iff_allowed (valid_run h hrun) op).mpr (hmeet pre op post he rs c' hrun)
  rw [← hiff]
  refine and_iff_right_of_imp fun hmeet => hmeet.exists_run ?_
  rintro c op ⟨r, c', hok, -⟩
  exact ⟨r, c', hok⟩

def fourBytes : Zchunk := ⟨0, 4, 0, none, [0, 0, 0, 0], .behind⟩

def appends : List Op := [.append ⟨[1, 2], by decide⟩, .digest, .append ⟨[3], by decide⟩, .digest]

theorem digests_right_appends :
    (∃ rs c', run (step fun _ _ => 7) fourBytes appends = .ok (rs, c')) ∧
      StepsMeet (step fun _ _ => 7) (Right fun _ _ => 7) fourBytes appends :=
  (digests_right_iff ⟨by decide, rfl, by decide, by decide, by decide⟩ appends).mpr
    (stepsMeet_of_checkSteps (by decide +kernel))

/-- Taken twice, the digest fails an assertion: the one that is kept is final, and is fed again. -/
theorem digest_twice :
    run (step fun _ _ => 7) fourBytes [.digest, .digest] = .error .assertion := rfl

/-- A chunk from `zchunk_new`, `zchunk_frommem`, or `zchunk_read` with what `fread` has read. -/
inductive Created : Zchunk → Prop where
  | new {fresh : Nat → UInt8} {data : Option (List UInt8)} {size : Nat} {c : Zchunk}
      (h : new fresh data size = .ok c) : Created c
  | frommem (data : Buffer) : Created (frommem data.1)
  | read {fresh : Nat → UInt8} {size : Nat} {c : Zchunk} (h : Zchunk.new fresh none size = .ok c)
      {bytes : List UInt8} (hbytes : bytes.length ≤ size) :
      Created { c with data := written c.data 0 bytes, size := bytes.length }

def Reached (sha1 : List UInt8 → Fin 20 → UInt8) (c : Zchunk) : Prop :=
  ∃ c0 ops rs, Created c0 ∧ run (step sha1) c0 ops = .ok (rs, c)

lemma Created.valid (h : Created c) : c.Valid := by
  cases h with
  | new h => exact (valid_new h).1
  | frommem data => exact ⟨le_rfl, rfl, data.2, Nat.two_pow_pos 63, by simp [Zchunk.frommem]⟩
  | @read fresh size c h bytes hbytes =>
    obtain ⟨hvalid, hmax⟩ := valid_new h
    have hroom : 0 + bytes.length ≤ c.data.length := by
      rw [hvalid.length_data]
      omega
    exact ⟨hmax ▸ hbytes, (length_written hroom).trans hvalid.length_data, hvalid.maxSize_lt,
      hvalid.consumed_lt, hvalid.final⟩

/-- A copy has the size of the block: it is right exactly when all of the block is in use. -/
theorem dup_eq_iff (h : Reached sha1 c) (fresh : Nat → UInt8) :
    (∃ copy, c.dup fresh = .ok copy ∧ copy.size = c.size ∧ copy.contents = c.contents) ↔
      c.size = c.maxSize := by
  obtain ⟨c0, ops, rs, hcreated, hrun⟩ := h
  have hvalid := valid_run hcreated.valid hrun
  have hdup := new_some hvalid.maxSize_lt (by rw [hvalid.length_data]) fresh
  rw [dup, hdup]
  constructor
  · rintro ⟨copy, ⟨⟩, hsize, -⟩
    exact hsize.symm
  · intro hfull
    refine ⟨_, rfl, hfull.symm, ?_⟩
    rw [contents, contents, List.take_take, Nat.min_self, hfull]

lemma reached_fourBytes (sha1 : List UInt8 → Fin 20 → UInt8) (ops : List Op) {rs : List Answer}
    (h : run (step sha1) fourBytes ops = .ok (rs, c)) : Reached sha1 c :=
  ⟨fourBytes, ops, rs, @Created.new (fun _ => 0) none 4 fourBytes rfl, h⟩

def appended (bytes : List UInt8) : Zchunk :=
  { fourBytes with size := bytes.length, data := written fourBytes.data 0 bytes }

theorem dup_eq_full : ∃ copy, (appended [1, 2, 3, 4]).dup (fun _ => 0) = .ok copy ∧
    copy.size = (appended [1, 2, 3, 4]).size ∧ copy.contents = (appended [1, 2, 3, 4]).contents :=
  (dup_eq_iff (reached_fourBytes (fun _ _ => 7) [.append ⟨[1, 2, 3, 4], by decide⟩] rfl) _).mpr rfl

/-- Of two bytes in a block of four, the copy has all four. -/
theorem dup_longer : Reached (fun _ _ => 7) (appended [1, 2]) ∧ (appended [1, 2]).size = 2 ∧
    ∃ copy, (appended [1, 2]).dup (fun _ => 0) = .ok copy ∧ copy.size = 4 :=
  ⟨reached_fourBytes _ [.append ⟨[1, 2], by decide⟩] rfl, rfl, _, rfl, rfl⟩

end Czmq.Zchunk
