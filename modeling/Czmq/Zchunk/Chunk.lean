import Czmq.Base.Machine
import Czmq.Zuuid.Text

/-! The chunks of `zchunk.c`. Sizes are 64-bit words. What a fresh block holds comes with the call
that allocates it; blocks of up to `2 ^ 63 - 1` bytes can be had. -/

namespace Czmq

open List Bytes

/-- `zdigest_t`: what it was fed with, and the hash once it is `final`. -/
structure Zdigest where
  context : List UInt8
  hash : Fin 20 → UInt8
  final : Bool
  deriving DecidableEq

namespace Zdigest

def new : Zdigest := ⟨[], fun _ => 0, false⟩

def update (self : Zdigest) (buffer : List UInt8) : Except Fault Zdigest :=
  if self.final then .error .assertion else .ok { self with context := self.context ++ buffer }

def printable (hash : Fin 20 → UInt8) : List UInt8 :=
  (finRange 20).flatMap fun i => [Hex.hexChar (hash i >>> 4), Hex.hexChar (hash i &&& 15)]

section
variable (sha1 : List UInt8 → Fin 20 → UInt8)

def data (self : Zdigest) : Zdigest :=
  if self.final then self else { self with hash := sha1 self.context, final := true }

def string (self : Zdigest) : List UInt8 × Zdigest :=
  (printable (self.data sha1).hash, self.data sha1)

end

end Zdigest

/-! ## Chunks -/

/-- Where the data are: behind the structure, on the heap, or in memory with a destructor. -/
inductive Place where
  | behind
  | heap
  | foreign
  deriving DecidableEq

/-- `zchunk_t`. All of the block is in `data`; the field `digest` is `cached`. -/
structure Zchunk where
  size : Nat
  maxSize : Nat
  consumed : Nat
  cached : Option Zdigest
  data : List UInt8
  place : Place
  deriving DecidableEq

namespace Zchunk

def readAt (block : List UInt8) (offset n : Nat) : Except Fault (List UInt8) :=
  if offset + n ≤ block.length then .ok ((block.drop offset).take n)
  else .error (.outOfBounds block.length)

def written (block : List UInt8) (offset : Nat) (bytes : List UInt8) : List UInt8 :=
  block.take offset ++ bytes ++ block.drop (offset + bytes.length)

def writeAt (block : List UInt8) (offset : Nat) (bytes : List UInt8) : Except Fault (List UInt8) :=
  if offset + bytes.length ≤ block.length then .ok (written block offset bytes)
  else .error (.outOfBounds block.length)

def allocate (fresh : Nat → UInt8) (n : Nat) (kept : List UInt8) : Except Fault (List UInt8) :=
  if n < 2 ^ 63 then .ok (kept.take n ++ (range (n - kept.length)).map fresh)
  else .error .outOfMemory

def new (fresh : Nat → UInt8) (data : Option (List UInt8)) (size : Nat) : Except Fault Zchunk := do
  let block ← allocate fresh size []
  match data with
  | some bytes => do
    let block ← writeAt block 0 (← readAt bytes 0 size)
    pure ⟨size, size, 0, none, block, .behind⟩
  | none => pure ⟨0, size, 0, none, block.set 0 0, .behind⟩

def frommem (data : List UInt8) : Zchunk := ⟨data.length, data.length, 0, none, data, .foreign⟩

def resize (self : Zchunk) (fresh : Nat → UInt8) (size : Nat) : Except Fault Zchunk := do
  let kept := match self.place with
    | .heap => self.data
    | .behind | .foreign => []
  let block ← allocate fresh size kept
  pure { self with cached := none, maxSize := size, size := 0, data := block, place := .heap }

def set (self : Zchunk) (data : Option (List UInt8)) (size : Nat) : Except Fault (Nat × Zchunk) := do
  let size := if size > self.maxSize then self.maxSize else size
  let block ← match data with
    | some bytes => do writeAt self.data 0 (← readAt bytes 0 size)
    | none => pure self.data
  pure (size, { self with cached := none, data := block, size := size })

def fill (self : Zchunk) (filler : UInt8) (size : Nat) : Except Fault (Nat × Zchunk) := do
  let size := if size > self.maxSize then self.maxSize else size
  let block ← writeAt self.data 0 (replicate size filler)
  pure (size, { self with cached := none, data := block, size := size })

/-- The part of `size` for which the chunk has room. -/
def clamp (self : Zchunk) (size : Nat) : Nat :=
  if (self.size + size) % 2 ^ 64 > self.maxSize then (self.maxSize + (2 ^ 64 - self.size)) % 2 ^ 64
  else size

def append (self : Zchunk) (data : List UInt8) : Except Fault (Nat × Zchunk) := do
  let size := self.clamp data.length
  let block ← writeAt self.data self.size (← readAt data 0 size)
  let newSize := (self.size + size) % 2 ^ 64
  pure (newSize, { self with cached := none, data := block, size := newSize })

def moved (self : Zchunk) (fresh : Nat → UInt8) (maxSize : Nat) : Except Fault (List UInt8) :=
  match self.place with
  | .heap => allocate fresh maxSize self.data
  | .behind | .foreign => do
    writeAt (← allocate fresh maxSize []) 0 (← readAt self.data 0 self.size)

/-- The room that `zchunk_extend` makes for a new size. -/
def grow (self : Zchunk) (fresh : Nat → UInt8) (newSize : Nat) : Except Fault Zchunk :=
  if newSize > self.maxSize then do
    let maxSize := newSize * 2 % 2 ^ 64
    let block ← self.moved fresh maxSize
    pure { self with maxSize := maxSize, data := block, place := .heap }
  else pure self

def extend (self : Zchunk) (fresh : Nat → UInt8) (data : List UInt8) :
    Except Fault (Nat × Zchunk) := do
  let newSize := (self.size + data.length) % 2 ^ 64
  let self ← self.grow fresh newSize
  if newSize ≤ self.maxSize then do
    let block ← writeAt self.data self.size data
    pure (newSize, { self with data := block, size := newSize })
  else .error .assertion

def consumable (self source : Zchunk) : Nat :=
  self.clamp ((source.size + (2 ^ 64 - source.consumed)) % 2 ^ 64)

/-- `zchunk_consume`, with the chunk and its source after it. It keeps the digest. -/
def consume (self source : Zchunk) : Except Fault (Nat × Zchunk × Zchunk) := do
  let size := self.consumable source
  let block ← writeAt self.data self.size (← readAt source.data source.consumed size)
  let newSize := (self.size + size) % 2 ^ 64
  pure (newSize, { self with data := block, size := newSize },
    { source with consumed := (source.consumed + size) % 2 ^ 64 })

def consumeSelf (self : Zchunk) : Except Fault (Nat × Zchunk) := do
  let (newSize, target, source) ← self.consume self
  pure (newSize, { target with consumed := source.consumed })

def dup (self : Zchunk) (fresh : Nat → UInt8) : Except Fault Zchunk :=
  new fresh (some self.data) self.maxSize

def digest (sha1 : List UInt8 → Fin 20 → UInt8) (self : Zchunk) :
    Except Fault (List UInt8 × Zchunk) := do
  let digest ← (self.cached.getD .new).update (← readAt self.data 0 self.size)
  let (string, digest) := digest.string sha1
  pure (string, { self with cached := some digest })

def contents (self : Zchunk) : List UInt8 := self.data.take self.size

variable {block : List UInt8} {offset : Nat}

lemma readAt_of_le {n : Nat} (h : offset + n ≤ block.length) :
    readAt block offset n = .ok ((block.drop offset).take n) := if_pos h

lemma readAt_take (bytes : List UInt8) (n : Nat) :
    readAt bytes 0 (bytes.take n).length = .ok (bytes.take n) := by
  rw [readAt_of_le (by rw [length_take]; omega), drop_zero, length_take,
    ← take_eq_take_min]

variable {bytes : List UInt8}

lemma writeAt_of_le (h : offset + bytes.length ≤ block.length) :
    writeAt block offset bytes = .ok (written block offset bytes) := if_pos h

lemma length_written (h : offset + bytes.length ≤ block.length) :
    (written block offset bytes).length = block.length := by
  simp only [written, length_append, length_take, length_drop]
  omega

lemma take_written (h : offset + bytes.length ≤ block.length) :
    (written block offset bytes).take (offset + bytes.length) = block.take offset ++ bytes := by
  rw [written, take_left']
  rw [length_append, length_take]
  omega

lemma allocate_of_lt {n : Nat} (h : n < 2 ^ 63) (fresh : Nat → UInt8) (kept : List UInt8) :
    ∃ block, allocate fresh n kept = .ok block ∧ block.length = n ∧
      (kept.length ≤ n → block.take kept.length = kept) := by
  refine ⟨_, if_pos h, ?_, fun hkept => ?_⟩
  · simp only [length_append, length_take, length_map, length_range]
    omega
  · rw [take_of_length_le hkept, take_left]

lemma lt_of_allocate_eq_ok {fresh : Nat → UInt8} {n : Nat} {kept : List UInt8}
    (h : allocate fresh n kept = .ok block) : n < 2 ^ 63 := by
  rw [allocate] at h
  split at h
  · assumption
  · cases h

/-! ## Valid chunks -/

/-- The block is as long as `max_size` says, and only a final digest is kept. -/
structure Valid (c : Zchunk) : Prop where
  size_le : c.size ≤ c.maxSize
  length_data : c.data.length = c.maxSize
  maxSize_lt : c.maxSize < 2 ^ 63
  consumed_lt : c.consumed < 2 ^ 63
  final : ∀ digest ∈ c.cached, digest.final = true

lemma new_some {size : Nat} (hsize : size < 2 ^ 63)
    (hbytes : size ≤ bytes.length) (fresh : Nat → UInt8) :
    new fresh (some bytes) size = .ok ⟨size, size, 0, none, bytes.take size, .behind⟩ := by
  obtain ⟨block, hblock, hlength, -⟩ := allocate_of_lt hsize fresh []
  have htake : (bytes.take size).length = size := by
    rw [length_take]
    omega
  have hwritten : written block 0 (bytes.take size) = bytes.take size := by
    rw [written, drop_eq_nil_of_le (by omega), append_nil]
    rfl
  rw [new, hblock]
  dsimp only [ok_bind]
  rw [readAt_of_le (by omega), drop_zero, ok_bind, writeAt_of_le (by omega), hwritten]
  rfl

lemma new_none {size : Nat} (hsize : size < 2 ^ 63) (fresh : Nat → UInt8) :
    ∃ c, new fresh none size = .ok c ∧ c.Valid ∧ c.maxSize = size ∧ c.contents = [] := by
  obtain ⟨block, hblock, hlength, -⟩ := allocate_of_lt hsize fresh []
  refine ⟨⟨0, size, 0, none, block.set 0 0, .behind⟩, ?_,
    ⟨Nat.zero_le _, ?_, hsize, by simp, by simp⟩, rfl, rfl⟩
  · rw [new, hblock]
    rfl
  · rw [length_set, hlength]

lemma valid_new {c : Zchunk} {fresh : Nat → UInt8} {data : Option (List UInt8)} {size : Nat}
    (h : new fresh data size = .ok c) : c.Valid ∧ c.maxSize = size := by
  obtain ⟨block, hblock, hrest⟩ := bind_eq_ok.mp h
  have hsize := lt_of_allocate_eq_ok hblock
  cases data with
  | none =>
    obtain ⟨c', hok, hvalid, hmax, -⟩ := new_none hsize fresh
    cases h.symm.trans hok
    exact ⟨hvalid, hmax⟩
  | some bytes =>
    have hbytes : size ≤ bytes.length := by
      obtain ⟨copy, hread, -⟩ := bind_eq_ok.mp hrest
      rw [readAt] at hread
      split at hread
      · omega
      · cases hread
    rw [new_some hsize hbytes] at h
    cases h
    refine ⟨⟨le_rfl, ?_, hsize, by simp, by simp⟩, rfl⟩
    exact length_take_of_le hbytes

section
variable {c : Zchunk} (h : c.Valid)
include h

lemma length_contents : c.contents.length = c.size := by
  rw [contents, length_take, h.length_data, Nat.min_eq_left h.size_le]

lemma clamp_of_lt {size : Nat} (hsize : size < 2 ^ 63) :
    c.clamp size = min size (c.maxSize - c.size) := by
  have hle := h.size_le
  have hlt := h.maxSize_lt
  rw [clamp]
  split <;> omega

lemma valid_written {bytes : List UInt8} (hroom : c.size + bytes.length ≤ c.maxSize)
    (cached : Option Zdigest) (hcached : ∀ digest ∈ cached, digest.final = true) :
    let after := { c with
      cached := cached, data := written c.data c.size bytes, size := c.size + bytes.length }
    after.Valid ∧ after.contents = c.contents ++ bytes := by
  have hroom' : c.size + bytes.length ≤ c.data.length := by rwa [h.length_data]
  exact ⟨⟨hroom, (length_written hroom').trans h.length_data, h.maxSize_lt, h.consumed_lt, hcached⟩,
    take_written hroom'⟩

lemma valid_rewritten {bytes : List UInt8} (hroom : bytes.length ≤ c.maxSize) :
    let after := { c with cached := none, data := written c.data 0 bytes, size := bytes.length }
    after.Valid ∧ after.contents = bytes := by
  have hroom' : 0 + bytes.length ≤ c.data.length := by rwa [h.length_data, Nat.zero_add]
  have htake := take_written hroom'
  rw [Nat.zero_add] at htake
  exact ⟨⟨hroom, (length_written hroom').trans h.length_data, h.maxSize_lt, h.consumed_lt,
    by simp⟩, htake⟩

/-! ## What each call does -/

lemma set_spec (data : List UInt8) :
    ∃ c', c.set (some data) data.length = .ok (c'.size, c') ∧ c'.Valid ∧ c'.cached = none ∧
      c'.contents = data.take c.maxSize ∧ c'.consumed = c.consumed := by
  have hmin : (if data.length > c.maxSize then c.maxSize else data.length) =
      (data.take c.maxSize).length := by
    rw [length_take]
    split <;> omega
  have hroom : (data.take c.maxSize).length ≤ c.maxSize := length_take_le _ _
  obtain ⟨hvalid, hcontents⟩ := valid_rewritten h hroom
  refine ⟨_, ?_, hvalid, rfl, hcontents, rfl⟩
  rw [set, hmin]
  rw [readAt_take, ok_bind, writeAt_of_le (by rw [h.length_data]; omega)]
  rfl

lemma setNull_spec (size : Nat) :
    ∃ c', c.set none size = .ok (c'.size, c') ∧ c'.Valid ∧ c'.cached = none ∧
      c'.contents = c.data.take (min size c.maxSize) ∧ c'.consumed = c.consumed := by
  have hmin : (if size > c.maxSize then c.maxSize else size) = min size c.maxSize := by
    split <;> omega
  refine ⟨{ c with cached := none, size := min size c.maxSize }, ?_,
    ⟨Nat.min_le_right _ _, h.length_data, h.maxSize_lt, h.consumed_lt, by simp⟩, rfl, rfl, rfl⟩
  rw [set, hmin]
  rfl

lemma fill_spec (filler : UInt8) (size : Nat) :
    ∃ c', c.fill filler size = .ok (c'.size, c') ∧ c'.Valid ∧ c'.cached = none ∧
      c'.contents = replicate (min size c.maxSize) filler ∧ c'.consumed = c.consumed := by
  have hmin : (if size > c.maxSize then c.maxSize else size) = min size c.maxSize := by
    split <;> omega
  have hlength : (replicate (min size c.maxSize) filler).length = min size c.maxSize :=
    length_replicate
  obtain ⟨hvalid, hcontents⟩ := valid_rewritten h (by rw [hlength]; exact Nat.min_le_right _ _)
  refine ⟨_, ?_, hvalid, rfl, hcontents, rfl⟩
  rw [fill, hmin, writeAt_of_le (by rw [h.length_data]; omega), hlength]
  rfl

variable {data : List UInt8}

lemma append_spec (hdata : data.length < 2 ^ 63) :
    ∃ c', c.append data = .ok (c'.size, c') ∧ c'.Valid ∧ c'.cached = none ∧
      c'.contents = c.contents ++ data.take (c.maxSize - c.size) ∧ c'.consumed = c.consumed := by
  have hle := h.size_le
  have hlt := h.maxSize_lt
  have hclamp : c.clamp data.length = (data.take (c.maxSize - c.size)).length := by
    rw [clamp_of_lt h hdata, length_take, Nat.min_comm]
  have hroom : c.size + (data.take (c.maxSize - c.size)).length ≤ c.maxSize := by
    rw [length_take]
    omega
  obtain ⟨hvalid, hcontents⟩ := valid_written h hroom none (by simp)
  refine ⟨_, ?_, hvalid, rfl, hcontents, rfl⟩
  rw [append, hclamp]
  rw [readAt_take, ok_bind, writeAt_of_le (by rwa [h.length_data]),
    Nat.mod_eq_of_lt (by omega)]
  rfl

lemma resize_spec {size : Nat} (hsize : size < 2 ^ 63) (fresh : Nat → UInt8) :
    ∃ c', c.resize fresh size = .ok c' ∧ c'.Valid ∧ c'.cached = none ∧ c'.contents = [] ∧
      c'.consumed = c.consumed := by
  rw [resize]
  generalize (match c.place with
    | .heap => c.data
    | .behind | .foreign => []) = kept
  obtain ⟨block, hblock, hlength, -⟩ := allocate_of_lt hsize fresh kept
  refine ⟨{ c with cached := none, maxSize := size, size := 0, data := block, place := .heap }, ?_,
    ⟨Nat.zero_le _, hlength, hsize, h.consumed_lt, by simp⟩, rfl, take_zero, rfl⟩
  rw [hblock]
  rfl

lemma moved_spec {maxSize : Nat} (hmax : maxSize < 2 ^ 63) (hmore : c.maxSize ≤ maxSize)
    (fresh : Nat → UInt8) :
    ∃ block, c.moved fresh maxSize = .ok block ∧ block.length = maxSize ∧
      block.take c.size = c.contents := by
  have hlen := h.length_data
  have hle := h.size_le
  have hcopy : ∃ block, (do
        writeAt (← allocate fresh maxSize []) 0 (← readAt c.data 0 c.size)) = .ok block ∧
      block.length = maxSize ∧ block.take c.size = c.contents := by
    obtain ⟨block, hblock, hlength, -⟩ := allocate_of_lt hmax fresh []
    have hread : readAt c.data 0 c.size = .ok c.contents := readAt_of_le (by omega)
    have hroom : 0 + c.contents.length ≤ block.length := by
      rw [length_contents h]
      omega
    have htake := take_written hroom
    rw [Nat.zero_add, length_contents h] at htake
    refine ⟨written block 0 c.contents, ?_, (length_written hroom).trans hlength, htake⟩
    rw [hblock, hread, ok_bind, ok_bind, writeAt_of_le hroom]
  unfold moved
  cases c.place with
  | heap =>
    obtain ⟨block, hblock, hlength, hkept⟩ := allocate_of_lt hmax fresh c.data
    refine ⟨block, hblock, hlength, ?_⟩
    rw [contents, ← hkept (by omega), take_take, Nat.min_eq_left (by omega)]
  | behind => exact hcopy
  | foreign => exact hcopy

omit h in
lemma lt_of_moved_eq_ok {fresh : Nat → UInt8} {maxSize : Nat} {block : List UInt8}
    (hok : c.moved fresh maxSize = .ok block) : maxSize < 2 ^ 63 := by
  unfold moved at hok
  split at hok
  · exact lt_of_allocate_eq_ok hok
  · obtain ⟨fresh', hfresh, -⟩ := bind_eq_ok.mp hok
    exact lt_of_allocate_eq_ok hfresh
  · obtain ⟨fresh', hfresh, -⟩ := bind_eq_ok.mp hok
    exact lt_of_allocate_eq_ok hfresh

lemma grow_spec {newSize : Nat} (hroom : newSize ≤ c.maxSize ∨ 2 * newSize < 2 ^ 63)
    (fresh : Nat → UInt8) :
    ∃ c', c.grow fresh newSize = .ok c' ∧ c'.Valid ∧ newSize ≤ c'.maxSize ∧ c'.size = c.size ∧
      c'.cached = c.cached ∧ c'.contents = c.contents ∧ c'.consumed = c.consumed := by
  have hle := h.size_le
  by_cases hfits : newSize ≤ c.maxSize
  · exact ⟨c, if_neg (by omega), h, hfits, rfl, rfl, rfl, rfl⟩
  · have hmax : newSize * 2 < 2 ^ 63 := by omega
    obtain ⟨block, hblock, hlength, htake⟩ := moved_spec h hmax (by omega) fresh
    refine ⟨{ c with maxSize := newSize * 2, data := block, place := .heap }, ?_,
      ⟨hle.trans (by dsimp only; omega), hlength, hmax, h.consumed_lt, h.final⟩, ?_, rfl, rfl, htake,
      rfl⟩
    · rw [grow, if_pos (by omega), Nat.mod_eq_of_lt (by omega)]
      dsimp only
      rw [hblock]
      rfl
    · dsimp only
      omega

lemma extend_spec (hroom : c.size + data.length ≤ c.maxSize ∨
      2 * (c.size + data.length) < 2 ^ 63) (fresh : Nat → UInt8) :
    ∃ c', c.extend fresh data = .ok (c'.size, c') ∧ c'.Valid ∧ c'.cached = c.cached ∧
      c'.contents = c.contents ++ data ∧ c'.consumed = c.consumed := by
  have hlt := h.maxSize_lt
  obtain ⟨c1, hgrow, hvalid, hmax, hsize, hcached, hcontents, hconsumed⟩ := grow_spec h hroom fresh
  rw [← hsize] at hmax
  obtain ⟨hvalid', hcontents'⟩ := valid_written hvalid hmax c1.cached hvalid.final
  refine ⟨_, ?_, hvalid', hcached, hcontents'.trans (by rw [hcontents]), hconsumed⟩
  rw [extend, Nat.mod_eq_of_lt (by omega), hgrow]
  dsimp only [ok_bind]
  rw [← hsize, if_pos hmax, writeAt_of_le (by rwa [hvalid.length_data])]
  rfl

lemma fits_of_extend_eq_ok (hdata : data.length < 2 ^ 63)
    {fresh : Nat → UInt8} {n : Nat} {c' : Zchunk} (hok : c.extend fresh data = .ok (n, c')) :
    c.size + data.length ≤ c.maxSize ∨ 2 * (c.size + data.length) < 2 ^ 63 := by
  have hle := h.size_le
  have hlt := h.maxSize_lt
  rw [extend, Nat.mod_eq_of_lt (by omega)] at hok
  obtain ⟨c1, hgrow, hok⟩ := bind_eq_ok.mp hok
  split at hok
  · next hassert =>
    rw [grow] at hgrow
    split at hgrow
    · obtain ⟨block, hblock, hgrow⟩ := bind_eq_ok.mp hgrow
      have hmem := lt_of_moved_eq_ok hblock
      cases hgrow
      dsimp only at hassert
      omega
    · omega
  · cases hok

lemma digest_spec (sha1 : List UInt8 → Fin 20 → UInt8) (hnone : c.cached = none) :
    ∃ c', c.digest sha1 = .ok (Zdigest.printable (sha1 c.contents), c') ∧ c'.Valid := by
  have hread : readAt c.data 0 c.size = .ok c.contents :=
    readAt_of_le (by rw [h.length_data, Nat.zero_add]; exact h.size_le)
  refine ⟨{ c with cached := some ⟨c.contents, sha1 c.contents, true⟩ }, ?_,
    ⟨h.size_le, h.length_data, h.maxSize_lt, h.consumed_lt, ?_⟩⟩
  · rw [digest, hread, hnone]
    rfl
  · rintro digest ⟨⟩
    rfl

end

/-! ## Consuming -/

/-- `zchunk_consume` copies within both blocks. A source cut below what was consumed has a size that
wraps around. -/
def Transfers (c source : Zchunk) : Prop :=
  source.consumed ≤ source.size ∨
    c.size + source.size < source.consumed ∧
      source.consumed + (c.maxSize - c.size) ≤ source.maxSize

instance (c source : Zchunk) : Decidable (Transfers c source) := by
  unfold Transfers
  infer_instance

section
variable {c source : Zchunk} (h : c.Valid) (hs : source.Valid)
include h hs

lemma transfers_iff : Transfers c source ↔
    source.consumed + c.consumable source ≤ source.data.length ∧
      c.size + c.consumable source ≤ c.data.length := by
  have hle := h.size_le
  have hlt := h.maxSize_lt
  have hle' := hs.size_le
  have hlt' := hs.maxSize_lt
  have hconsumed := hs.consumed_lt
  rw [Transfers, h.length_data, hs.length_data, consumable]
  by_cases hsound : source.consumed ≤ source.size
  · have hleft : (source.size + (2 ^ 64 - source.consumed)) % 2 ^ 64 =
        source.size - source.consumed := by omega
    rw [clamp_of_lt h (by omega)]
    omega
  · have hleft : (source.size + (2 ^ 64 - source.consumed)) % 2 ^ 64 =
        source.size + (2 ^ 64 - source.consumed) := by omega
    rw [clamp]
    split <;> omega

lemma consume_spec (htransfers : Transfers c source) :
    ∃ c' source', c.consume source = .ok (c'.size, c', source') ∧ c'.Valid ∧ source'.Valid ∧
      c'.cached = c.cached ∧ c'.contents = c.contents ++
        (source.data.drop source.consumed).take (c.consumable source) ∧
      c'.consumed = c.consumed ∧
      source' = { source with consumed := source.consumed + c.consumable source } := by
  obtain ⟨hread, hwrite⟩ := (transfers_iff h hs).mp htransfers
  have hlt := h.maxSize_lt
  have hlt' := hs.maxSize_lt
  have hlen := h.length_data
  have hlen' := hs.length_data
  generalize hbytes : (source.data.drop source.consumed).take (c.consumable source) = bytes
  have hlength : bytes.length = c.consumable source := by
    rw [← hbytes, length_take, length_drop]
    omega
  rw [← hlength] at hwrite
  obtain ⟨hvalid, hcontents⟩ := valid_written h (hlen ▸ hwrite) c.cached h.final
  refine ⟨_, { source with consumed := source.consumed + c.consumable source }, ?_, hvalid,
    ⟨hs.size_le, hs.length_data, hs.maxSize_lt, ?_, hs.final⟩, rfl, hcontents, rfl, rfl⟩
  · rw [consume, readAt_of_le hread, hbytes]
    dsimp only [ok_bind]
    rw [writeAt_of_le hwrite, ← hlength, Nat.mod_eq_of_lt (by omega), Nat.mod_eq_of_lt (by omega)]
    rfl
  · change source.consumed + c.consumable source < 2 ^ 63
    omega

lemma transfers_of_consume_eq_ok {n : Nat} {c' source' : Zchunk}
    (hok : c.consume source = .ok (n, c', source')) : Transfers c source := by
  rw [transfers_iff h hs]
  obtain ⟨bytes, hread, hok⟩ := bind_eq_ok.mp hok
  obtain ⟨block, hwrite, -⟩ := bind_eq_ok.mp hok
  rw [readAt] at hread
  split at hread
  · next hin =>
    cases hread
    refine ⟨hin, ?_⟩
    rw [writeAt] at hwrite
    split at hwrite
    · next hin' =>
      rw [length_take, length_drop] at hin'
      omega
    · cases hwrite
  · cases hread

end

lemma consumeSelf_spec {c : Zchunk} (h : c.Valid) (htransfers : Transfers c c) :
    ∃ c', c.consumeSelf = .ok (c'.size, c') ∧ c'.Valid ∧ c'.cached = c.cached := by
  obtain ⟨target, source, hok, hvalid, hvalid', hcached, -⟩ := consume_spec h h htransfers
  refine ⟨{ target with consumed := source.consumed }, ?_,
    ⟨hvalid.size_le, hvalid.length_data, hvalid.maxSize_lt, hvalid'.consumed_lt, hvalid.final⟩,
    hcached⟩
  rw [consumeSelf, hok]
  rfl

end Zchunk

end Czmq
