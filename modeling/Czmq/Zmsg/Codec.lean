import Czmq.Base.Loop
import Czmq.Fault

/-! The codec of `zmsg.c`: `zmsg_encode` writes the frames, each behind its length in 1 or 1+4
bytes, in two passes, and `zmsg_decode` reads them back. -/

namespace Czmq

open List Loop Bytes

structure Zmsg where
  frames : List (List UInt8)
  contentSize : Nat
  deriving DecidableEq

/-- `zframe_new` on data at `p`, `none` where `zmq_msg_init_size` finds no memory. -/
def zframeNew (alloc : Nat → Bool) (b : Block) (p size : Nat) :
    Except Fault (Option (List UInt8)) :=
  if size = 0 then .ok (some [])
  else if alloc size then (load b p size).map some
  else .ok none

namespace Zmsg

def new : Zmsg := ⟨[], 0⟩

def append (self : Zmsg) (frame : List UInt8) : Zmsg :=
  ⟨self.frames ++ [frame], (self.contentSize + frame.length) % 2 ^ 64⟩

def addSize (totalSize : Nat) (frame : List UInt8) : Nat :=
  if frame.length < 255 then (totalSize + (frame.length + 1)) % 2 ^ 64
  else (totalSize + (frame.length + 1 + 4)) % 2 ^ 64

def header (frameSize : Nat) : List UInt8 :=
  if frameSize < 255 then [UInt8.ofNat frameSize] else 0xFF :: toBytes 4 frameSize

def write (size : Nat) (dest : List UInt8) (frame : List UInt8) : Except Fault (List UInt8) :=
  let dest := dest ++ header frame.length ++ frame
  if dest.length ≤ size then .ok dest else .error (.outOfBounds size)

def encode (alloc : Nat → Bool) (self : Zmsg) : Except Fault (List UInt8) :=
  let totalSize := self.frames.foldl addSize 0
  if totalSize = 0 ∨ alloc totalSize then do
    let dest ← self.frames.foldlM (write totalSize) []
    if dest.length = totalSize then pure dest else .error .assertion
  else .error .assertion

/-- The length that the loop of `zmsg_decode` reads, four bytes added up as `int`, and the new
`source`; `none` where it destroys the message. -/
def decodeSize (b : Block) (limit source : Nat) : Except Fault (Option (Nat × Nat)) := do
  let frameSize ← load b source 1
  let source := ptrAdd source 1
  if ofBytes frameSize = 255 then
    if ptrSub limit 4 < source then pure none
    else do
      let bytes ← load b source 4
      pure (some (sizeT (int32 (ofBytes bytes)), ptrAdd source 4))
  else pure (some (ofBytes frameSize, source))

def decodeRound (alloc : Nat → Bool) (b : Block) (limit : Nat) (s : Nat × Zmsg) :
    Except Fault ((Nat × Zmsg) ⊕ Option Zmsg) :=
  if s.1 < limit then do
    match ← decodeSize b limit s.1 with
    | none => pure (.inr none)
    | some (frameSize, source) =>
      if ptrSub limit frameSize < source then pure (.inr none)
      else do
        match ← zframeNew alloc b source frameSize with
        | none => pure (.inr none)
        | some decoded => pure (.inl (ptrAdd source frameSize, s.2.append decoded))
  else pure (.inr (some s.2))

def decode (alloc : Nat → Bool) (b : Block) : Except Fault (Option Zmsg) :=
  untilDone .endlessLoop (decodeRound alloc b (ptrAdd b.base b.data.length))
    (b.data.length + 1) (b.base, new)

def encoded (frames : List (List UInt8)) : List UInt8 :=
  frames.flatMap fun f => header f.length ++ f

lemma encoded_cons (f : List UInt8) (fs : List (List UInt8)) :
    encoded (f :: fs) = header f.length ++ f ++ encoded fs := rfl

lemma length_header (n : Nat) : (header n).length = if n < 255 then 1 else 1 + 4 := by
  rw [header]
  split <;> simp

lemma foldl_addSize {fs : List (List UInt8)} {total : Nat}
    (h : total + (encoded fs).length < 2 ^ 64) :
    fs.foldl addSize total = total + (encoded fs).length := by
  induction fs generalizing total with
  | nil => rfl
  | cons f fs ih =>
    simp only [encoded_cons, length_append, length_header] at h
    have hsize : addSize total f = total + ((header f.length).length + f.length) := by
      rw [addSize, length_header]
      split at h <;> simp only [*, if_true, if_false] <;> omega
    simp only [foldl_cons, hsize, encoded_cons, length_append]
    rw [ih (by rw [length_header]; omega)]
    omega

lemma foldlM_write {fs : List (List UInt8)} {size : Nat} {dest : List UInt8}
    (h : dest.length + (encoded fs).length ≤ size) :
    fs.foldlM (write size) dest = .ok (dest ++ encoded fs) := by
  induction fs generalizing dest with
  | nil => simp [encoded, pure, Except.pure]
  | cons f fs ih =>
    simp only [encoded_cons, length_append] at h
    have hwrite : write size dest f = .ok (dest ++ header f.length ++ f) := by
      rw [write, if_pos (by simp only [length_append]; omega)]
    rw [foldlM_cons, hwrite]
    change fs.foldlM (write size) _ = _
    rw [ih (by simp only [length_append]; omega), encoded_cons]
    simp only [append_assoc]

lemma encode_eq {alloc : Nat → Bool} {m : Zmsg} (hsize : (encoded m.frames).length < 2 ^ 64)
    (halloc : alloc (encoded m.frames).length = true) :
    encode alloc m = .ok (encoded m.frames) := by
  have htotal : m.frames.foldl addSize 0 = (encoded m.frames).length := by
    rw [foldl_addSize (by omega), Nat.zero_add]
  simp only [encode, htotal, halloc]
  rw [foldlM_write (by simp)]
  simp [pure, Except.pure]

/-! ## The decoder on an encoded message -/

section
variable {alloc : Nat → Bool} {b : Block} {pre post : List UInt8} {self : Zmsg}

lemma decodeSize_header {n : Nat} (hn : n < 2 ^ 32) (hdata : b.data = pre ++ header n ++ post) :
    decodeSize b (b.base + b.data.length) (b.base + pre.length) =
      .ok (some (sizeT (int32 n), b.base + (pre ++ header n).length)) := by
  have hlen : b.data.length = pre.length + (header n).length + post.length := by
    rw [hdata, length_append, length_append]
  have hmem := b.end_lt
  rw [length_header] at hlen
  by_cases hsmall : n < 255
  · rw [header, if_pos hsmall] at hdata
    have hbyte : ofBytes [UInt8.ofNat n] = n := by
      simp [ofBytes]
      omega
    rw [if_pos hsmall] at hlen
    rw [decodeSize, load_append (n := 1) hdata rfl rfl, ok_bind, hbyte, if_neg (by omega),
      ptrAdd_of_lt (by omega), sizeT_int32_of_lt (by omega), length_append, length_header,
      if_pos hsmall]
    rfl
  · have hdata1 : b.data = pre ++ [0xFF] ++ (toBytes 4 n ++ post) := by
      rw [hdata, header, if_neg hsmall]
      simp
    have hdata2 : b.data = (pre ++ [0xFF]) ++ toBytes 4 n ++ post := by
      rw [hdata1]
      simp
    rw [if_neg hsmall] at hlen
    rw [decodeSize, load_append (n := 1) hdata1 rfl rfl, ok_bind, if_pos (by decide),
      ptrAdd_of_lt (by omega), ptrSub_of_le (by omega) hmem, if_neg (by omega),
      load_append hdata2 (by simp [Nat.add_assoc]) (length_toBytes 4 n).symm, ok_bind,
      ofBytes_toBytes_of_lt (by omega), ptrAdd_of_lt (by omega), length_append, length_header,
      if_neg hsmall]
    rfl

section
variable {f : List UInt8} (hdata : b.data = pre ++ (header f.length ++ f) ++ post)
include hdata

lemma decodeRound_header (hf : f.length < 2 ^ 32) :
    decodeRound alloc b (b.base + b.data.length) (b.base + pre.length, self) =
      if ptrSub (b.base + b.data.length) (sizeT (int32 f.length)) <
          b.base + (pre ++ header f.length).length then .ok (.inr none)
      else zframeNew alloc b (b.base + (pre ++ header f.length).length)
          (sizeT (int32 f.length)) >>= fun
        | none => .ok (.inr none)
        | some decoded => .ok (.inl (ptrAdd (b.base + (pre ++ header f.length).length)
            (sizeT (int32 f.length)), self.append decoded)) := by
  have hhead : b.data = pre ++ header f.length ++ (f ++ post) := by rw [hdata]; simp
  have hlen := congrArg length hhead
  have hpos : 0 < (header f.length).length := by
    rw [length_header]
    split <;> omega
  rw [length_append, length_append] at hlen
  rw [decodeRound, if_pos (by dsimp only; omega), decodeSize_header hf hhead, ok_bind]
  refine if_congr Iff.rfl rfl (bind_congr fun decoded => ?_)
  cases decoded <;> rfl

lemma decodeRound_of_lt (hf : f.length < 2 ^ 31) (halloc : alloc f.length = true) :
    decodeRound alloc b (b.base + b.data.length) (b.base + pre.length, self) =
      .ok (.inl (b.base + (pre ++ (header f.length ++ f)).length, self.append f)) := by
  have hbody : b.data = (pre ++ header f.length) ++ f ++ post := by rw [hdata]; simp
  have hmem := b.end_lt
  have hlen := congrArg length hbody
  rw [length_append] at hlen
  have hbodyLen : ((pre ++ header f.length) ++ f).length =
      (pre ++ header f.length).length + f.length := length_append
  have hnew : zframeNew alloc b (b.base + (pre ++ header f.length).length) f.length =
      .ok (some f) := by
    rw [zframeNew, load_append hbody rfl rfl]
    split
    · next h0 => rw [eq_nil_of_length_eq_zero h0]
    · rfl
  rw [decodeRound_header hdata (by omega), sizeT_int32_of_lt hf,
    ptrSub_of_le (by omega) hmem, if_neg (by omega), hnew, ok_bind, ptrAdd_of_lt (by omega),
    ← append_assoc, hbodyLen, Nat.add_assoc]

lemma decodeRound_of_ge (alloc : Nat → Bool) (self : Zmsg) (hf : 2 ^ 31 ≤ f.length)
    (hf' : f.length < 2 ^ 32) :
    decodeRound alloc b (b.base + b.data.length) (b.base + pre.length, self) = .ok (.inr none) ∨
      alloc (f.length + (2 ^ 64 - 2 ^ 32)) = true ∧
        ∃ i, decodeRound alloc b (b.base + b.data.length) (b.base + pre.length, self) =
          .error (.outOfBounds i) := by
  have hout : b.base + b.data.length <
      b.base + (pre ++ header f.length).length + (f.length + (2 ^ 64 - 2 ^ 32)) := by
    have hlen := b.length_lt
    omega
  rw [decodeRound_header hdata hf', sizeT_int32_of_ge hf hf']
  split
  · exact .inl rfl
  · rw [zframeNew, if_neg (by omega)]
    cases halloc : alloc (f.length + (2 ^ 64 - 2 ^ 32)) with
    | false => exact .inl rfl
    | true =>
      refine .inr ⟨rfl, b.base + (pre ++ header f.length).length, ?_⟩
      rw [if_pos rfl, load_of_lt hout]
      rfl

end

variable {fs : List (List UInt8)}

lemma length_le_encoded {f : List UInt8} (hf : f ∈ fs) :
    f.length ≤ (encoded fs).length := by
  induction fs with
  | nil => cases hf
  | cons x fs ih =>
    rw [encoded_cons, length_append, length_append]
    rcases mem_cons.mp hf with rfl | hf
    · omega
    · have := ih hf
      omega

lemma frames_length_le_encoded (fs : List (List UInt8)) : fs.length ≤ (encoded fs).length := by
  induction fs with
  | nil => exact Nat.le_refl _
  | cons f fs ih =>
    rw [encoded_cons, length_append, length_append, length_cons, length_header]
    split <;> omega

lemma untilDone_encoded (hfs : ∀ f ∈ fs, f.length < 2 ^ 31)
    (halloc : ∀ f ∈ fs, alloc f.length = true) (hdata : b.data = pre ++ encoded fs ++ post)
    (n : Nat) :
    untilDone .endlessLoop (decodeRound alloc b (b.base + b.data.length)) (n + fs.length)
        (b.base + pre.length, self) =
      untilDone .endlessLoop (decodeRound alloc b (b.base + b.data.length)) n
        (b.base + (pre ++ encoded fs).length, fs.foldl append self) := by
  induction fs generalizing pre self with
  | nil => simp [encoded]
  | cons f fs ih =>
    have hround : b.data = pre ++ (header f.length ++ f) ++ (encoded fs ++ post) := by
      rw [hdata, encoded_cons]
      simp
    have hrest : b.data = (pre ++ (header f.length ++ f)) ++ encoded fs ++ post := by
      rw [hround]
      simp
    rw [length_cons, ← Nat.add_assoc, untilDone_inl (decodeRound_of_lt hround
      (hfs f (mem_cons_self ..)) (halloc f (mem_cons_self ..))),
      ih (fun x hx => hfs x (mem_cons_of_mem _ hx))
        (fun x hx => halloc x (mem_cons_of_mem _ hx)) hrest, encoded_cons, append_assoc,
      foldl_cons]

lemma untilDone_encoded_ne (hfs : ∀ f ∈ fs, f.length < 2 ^ 32)
    (halloc : ∀ f ∈ fs, alloc f.length = true) (hlarge : ∃ f ∈ fs, 2 ^ 31 ≤ f.length)
    (hdata : b.data = pre ++ encoded fs) {n : Nat} (hn : fs.length ≤ n) (m : Zmsg) :
    untilDone .endlessLoop (decodeRound alloc b (b.base + b.data.length)) n
      (b.base + pre.length, self) ≠ .ok (some m) := by
  induction fs generalizing pre self n with
  | nil =>
    obtain ⟨f, hf, _⟩ := hlarge
    cases hf
  | cons f fs ih =>
    obtain ⟨k, rfl⟩ : ∃ k, n = k + 1 := ⟨n - 1, by rw [length_cons] at hn; omega⟩
    have hround : b.data = pre ++ (header f.length ++ f) ++ encoded fs := by
      rw [hdata, encoded_cons]
      simp
    by_cases hf : f.length < 2 ^ 31
    · rw [untilDone_inl (decodeRound_of_lt hround hf (halloc f (mem_cons_self ..)))]
      refine ih (fun x hx => hfs x (mem_cons_of_mem _ hx))
        (fun x hx => halloc x (mem_cons_of_mem _ hx)) ?_ hround
        (by rw [length_cons] at hn; omega)
      obtain ⟨x, hx, hlen⟩ := hlarge
      rcases mem_cons.mp hx with rfl | hx
      · omega
      · exact ⟨x, hx, hlen⟩
    · rcases decodeRound_of_ge hround alloc self (by omega)
        (hfs f (mem_cons_self ..)) with hnone | ⟨_, i, herror⟩
      · rw [untilDone_inr hnone]
        simp
      · rw [untilDone_error herror]
        simp

end

lemma foldl_append_frames (fs : List (List UInt8)) (self : Zmsg) :
    (fs.foldl append self).frames = self.frames ++ fs := by
  induction fs generalizing self with
  | nil => simp
  | cons f fs ih =>
    rw [foldl_cons, ih]
    simp [append]

lemma decode_eq (alloc : Nat → Bool) (b : Block) :
    decode alloc b = untilDone .endlessLoop (decodeRound alloc b (b.base + b.data.length))
      (b.data.length + 1) (b.base + ([] : List UInt8).length, new) := by
  rw [decode, ptrAdd_of_lt b.end_lt]
  rfl

/-- Encoding returns, and decoding the result anywhere in memory gives the same frames. -/
def RoundTrips (alloc : Nat → Bool) (m : Zmsg) : Prop :=
  ∃ data, encode alloc m = .ok data ∧ ∀ b : Block, b.data = data →
    ∃ m', decode alloc b = .ok (some m') ∧ m'.frames = m.frames

/-- A message of frames in the format survives encoding and decoding exactly when every frame is
shorter than `2 ^ 31` bytes. -/
theorem roundTrips_iff (alloc : Nat → Bool) (m : Zmsg)
    (hframes : ∀ f ∈ m.frames, f.length < 2 ^ 32) (hsize : (encoded m.frames).length < 2 ^ 63)
    (halloc : ∀ n ≤ (encoded m.frames).length, alloc n = true) :
    RoundTrips alloc m ↔ ∀ f ∈ m.frames, f.length < 2 ^ 31 := by
  have hencode := encode_eq (m := m) (by omega) (halloc _ (Nat.le_refl _))
  have hfit : ∀ f ∈ m.frames, alloc f.length = true := fun f hf => halloc _ (length_le_encoded hf)
  have hcount := frames_length_le_encoded m.frames
  constructor
  · rintro ⟨data, hdata, hall⟩
    obtain rfl : encoded m.frames = data := Except.ok.inj (hencode.symm.trans hdata)
    by_contra hlarge
    push Not at hlarge
    obtain ⟨m', hm', _⟩ := hall (Block.of _ hsize) rfl
    rw [decode_eq] at hm'
    refine untilDone_encoded_ne (b := Block.of _ hsize) hframes hfit hlarge rfl ?_ m' hm'
    change m.frames.length ≤ (encoded m.frames).length + 1
    omega
  · intro hsmall
    refine ⟨_, hencode, fun b hb => ⟨m.frames.foldl append new, ?_, ?_⟩⟩
    · have hdata : b.data = [] ++ encoded m.frames ++ [] := by rw [hb]; simp
      have hfuel : b.data.length + 1 =
          (b.data.length - m.frames.length) + 1 + m.frames.length := by
        rw [hb]
        omega
      rw [decode_eq, hfuel, untilDone_encoded hsmall hfit hdata, nil_append, ← hb]
      refine untilDone_inr ?_ _
      rw [decodeRound, if_neg (Nat.lt_irrefl _)]
      rfl
    · rw [foldl_append_frames]
      rfl

theorem roundTrips_small : RoundTrips (fun _ => true) ⟨[[], [1, 2, 3]], 3⟩ :=
  (roundTrips_iff (fun _ => true) ⟨[[], [1, 2, 3]], 3⟩ (by decide) (by decide)
    (fun _ _ => rfl)).mpr (by decide)

/-- A frame of `2 ^ 31` bytes or more is encoded, and decoding answers `NULL`. -/
lemma decode_large {alloc : Nat → Bool} {f : List UInt8} (hf : 2 ^ 31 ≤ f.length)
    (hf' : f.length < 2 ^ 32) (halloc : alloc (f.length + 5) = true)
    (hno : alloc (f.length + (2 ^ 64 - 2 ^ 32)) = false) :
    ∃ b : Block, encode alloc ⟨[f], f.length⟩ = .ok b.data ∧ decode alloc b = .ok none := by
  have hdata : encoded [f] = [] ++ (header f.length ++ f) ++ [] := by simp [encoded]
  have hlen : (encoded [f]).length = f.length + 5 := by
    rw [hdata, nil_append, append_nil, length_append, length_header,
      if_neg (by omega)]
    omega
  refine ⟨Block.of (encoded [f]) (by rw [hlen]; omega), ?_, ?_⟩
  · exact encode_eq (m := ⟨[f], f.length⟩) (by rw [hlen]; omega) (by rw [hlen]; exact halloc)
  · rw [decode_eq]
    refine untilDone_inr ?_ _
    rcases decodeRound_of_ge (b := Block.of (encoded [f]) (by rw [hlen]; omega)) hdata alloc new
      hf hf' with hnone | ⟨hyes, _⟩
    · exact hnone
    · rw [hno] at hyes
      cases hyes

theorem decode_two_gigabytes : ∃ f : List UInt8, f = replicate (2 ^ 31) 0 ∧ ∃ b : Block,
    encode (fun n => n < 2 ^ 40) ⟨[f], f.length⟩ = .ok b.data ∧
      decode (fun n => n < 2 ^ 40) b = .ok none := by
  obtain ⟨f, hf⟩ : ∃ f : List UInt8, f = replicate (2 ^ 31) 0 := ⟨_, rfl⟩
  have hlen : f.length = 2 ^ 31 := by rw [hf, length_replicate]
  exact ⟨f, hf, decode_large (by omega) (by omega) (by rw [hlen]; decide) (by rw [hlen]; decide)⟩

end Zmsg

end Czmq
