import Czmq.Zmsg.Codec

/-! `zmsg_send` over `zframe_send`, on the list of answers of `zmq_sendmsg`; with too few of them it
is still in the loop. -/

namespace Czmq

open List Bytes

/-- `zmq_sendmsg` takes the part, or fails with an `errno`. -/
inductive Outcome where
  | taken
  | failed (errno : Nat)
  deriving DecidableEq

def eintr : Nat := 4

inductive SocketType where
  | server | radio | other
  deriving DecidableEq

structure Zframe where
  data : List UInt8
  routingId : UInt32
  group : CString
  deriving DecidableEq

structure Part where
  data : List UInt8
  more : Bool
  dontwait : Bool
  routingId : Option UInt32
  group : Option CString
  deriving DecidableEq

structure SendFlags where
  more : Bool
  reuse : Bool
  dontwait : Bool
  deriving DecidableEq

/-- The `zmq_msg_t` of a frame as `zframe_send` sets it, and the flags of the call. -/
def Zframe.part (dest : SocketType) (flags : SendFlags) (self : Zframe) : Part where
  data := self.data
  more := flags.more
  dontwait := flags.dontwait
  routingId := if dest = .server then some self.routingId else none
  group := if dest = .radio then some self.group else none

/-- `zframe_send`: the return code, the caller's frame, and the part taken. With `reuse` the outcome
is that of copy and call together. -/
def zframeSend (dest : SocketType) (flags : SendFlags) (outcome : Outcome) :
    Option Zframe → Int × Option Zframe × Option Part
  | none => (0, none, none)
  | some self =>
    match outcome with
    | .failed _ => (-1, some self, none)
    | .taken => (0, if flags.reuse then some self else none, some (self.part dest flags))

structure Outgoing where
  frames : List Zframe
  contentSize : Nat
  routingId : UInt32
  deriving DecidableEq

/-- The variables of `zmsg_send`, the list of frames, and the parts taken. -/
structure Sending where
  rc : Int
  sentSome : Bool
  frames : List Zframe
  wire : List Part
  deriving DecidableEq

namespace Zmsg

/-- One round of the loop of `zmsg_send` at `frame`; `.inr` is its `break`. -/
def sendRound (dest : SocketType) (routingId : UInt32) (outcome : Outcome) (s : Sending)
    (frame : Zframe) (rest : List Zframe) : Sending ⊕ Sending :=
  let frame := { frame with routingId := routingId }
  let more := decide ((frame :: rest).length > 1)
  let (rc, _, part) := zframeSend dest ⟨more, false, false⟩ outcome (some frame)
  if rc ≠ 0 then
    let s := { s with rc := rc, frames := frame :: rest }
    if outcome = .failed eintr ∧ s.sentSome then .inl s else .inr s
  else .inl ⟨rc, true, rest, s.wire ++ part.toList⟩

def sendLoop (dest : SocketType) (routingId : UInt32) : List Outcome → Sending → Bool × Sending
  | [], s => (s.frames.isEmpty, s)
  | outcome :: outcomes, s =>
    match s.frames with
    | [] => (true, s)
    | frame :: rest =>
      match sendRound dest routingId outcome s frame rest with
      | .inl s => sendLoop dest routingId outcomes s
      | .inr s => (true, s)

/-- A call of `zmsg_send`: what it returned, if it has, and what is left of the message. -/
structure Call where
  rc : Option Int
  self : Option Outgoing
  wire : List Part
  deriving DecidableEq

def send (dest : SocketType) (outcomes : List Outcome) : Option Outgoing → Call
  | none => ⟨some 0, none, []⟩
  | some self =>
    let (ended, s) := sendLoop dest self.routingId outcomes ⟨0, false, self.frames, []⟩
    let left := { self with frames := s.frames }
    if ended then ⟨some s.rc, if s.rc = 0 then none else some left, s.wire⟩
    else ⟨none, some left, s.wire⟩

def contents (frames : List Zframe) : List (List UInt8) := frames.map (·.data)

/-- The parts taken and the list make up the message, the flags are those of the places in it, and
`sent_some` is kept. -/
structure Sending.Of (frames : List Zframe) (s : Sending) : Prop where
  contents : s.wire.map (·.data) ++ contents s.frames = contents frames
  more : s.wire.map (·.more) =
    (range s.wire.length).map fun i => decide (i + 1 < frames.length)
  sentSome : s.sentSome = !s.wire.isEmpty

section
variable {dest : SocketType} {routingId : UInt32} {original rest : List Zframe} {frame : Zframe}
  {s s' : Sending} {outcome : Outcome}

lemma sendRound_failed (errno : Nat) :
    sendRound dest routingId (.failed errno) s frame rest =
      if errno = eintr ∧ s.sentSome then
        .inl { s with rc := -1, frames := { frame with routingId } :: rest }
      else .inr { s with rc := -1, frames := { frame with routingId } :: rest } := by
  simp [sendRound, zframeSend]

lemma Sending.Of.failed (h : Of original s) (hs : s.frames = frame :: rest) (rc : Int) :
    Of original { s with rc := rc, frames := { frame with routingId } :: rest } where
  contents := by
    have hcontents := h.contents
    rw [hs] at hcontents
    exact hcontents
  more := h.more
  sentSome := h.sentSome

lemma Sending.Of.taken (h : Of original s) (hs : s.frames = frame :: rest) (rc : Int) :
    Of original ⟨rc, true, rest, s.wire ++
      [{ frame with routingId }.part dest ⟨decide (rest.length + 1 > 1), false, false⟩]⟩ := by
  have hcontents := h.contents
  rw [hs] at hcontents
  have hlength : s.wire.length + (rest.length + 1) = original.length := by
    simpa [Zmsg.contents] using congrArg length hcontents
  constructor
  · rw [← hcontents]
    simp [Zmsg.contents, Zframe.part]
  · -- the frame is last in the list exactly when it is last in the message
    have hlast : rest.length + 1 > 1 ↔ s.wire.length + 1 < original.length := by omega
    simp only [map_append, map_singleton, length_append, length_singleton,
      range_succ, h.more, Zframe.part, hlast]
  · simp

lemma Sending.Of.round (h : Of original s) (hs : s.frames = frame :: rest) :
    (∃ s', sendRound dest routingId outcome s frame rest = .inl s' ∧ Of original s' ∧
      (s'.frames = [] → s'.rc = 0)) ∨
    ∃ s', sendRound dest routingId outcome s frame rest = .inr s' ∧ Of original s' ∧
      s'.rc ≠ 0 ∧ s'.frames ≠ [] := by
  cases outcome with
  | taken => exact .inl ⟨_, rfl, h.taken hs 0, fun _ => rfl⟩
  | failed errno =>
    rw [sendRound_failed]
    by_cases hretry : errno = eintr ∧ s.sentSome
    · rw [if_pos hretry]
      exact .inl ⟨_, rfl, h.failed hs (-1), fun hnil => absurd hnil (cons_ne_nil _ _)⟩
    · rw [if_neg hretry]
      exact .inr ⟨_, rfl, h.failed hs (-1), by simp, cons_ne_nil _ _⟩

lemma sendLoop_of_nil (hs : s.frames = []) (outcomes : List Outcome) :
    sendLoop dest routingId outcomes s = (true, s) := by
  cases outcomes <;> simp [sendLoop, hs]

lemma sendLoop_cons (hs : s.frames = frame :: rest) (outcomes : List Outcome) :
    sendLoop dest routingId (outcome :: outcomes) s =
      (sendRound dest routingId outcome s frame rest).elim (sendLoop dest routingId outcomes)
        (true, ·) := by
  rw [sendLoop, hs]
  dsimp only
  cases sendRound dest routingId outcome s frame rest <;> rfl

variable {outcomes : List Outcome}

lemma Sending.Of.sendLoop (h : Of original s) (hrc : s.frames = [] → s.rc = 0) {ended : Bool}
    (hloop : Zmsg.sendLoop dest routingId outcomes s = (ended, s')) :
    Of original s' ∧ (ended = true → (s'.rc = 0 ↔ s'.frames = [])) := by
  induction outcomes generalizing s with
  | nil =>
    obtain ⟨rfl, rfl⟩ := Prod.mk.inj hloop
    refine ⟨h, fun hnil => ?_⟩
    have hnil := isEmpty_iff.mp hnil
    exact ⟨fun _ => hnil, hrc⟩
  | cons outcome outcomes ih =>
    cases hs : s.frames with
    | nil =>
      rw [sendLoop_of_nil hs] at hloop
      cases hloop
      exact ⟨h, fun _ => ⟨fun _ => hs, hrc⟩⟩
    | cons frame rest =>
      rw [sendLoop_cons hs] at hloop
      rcases h.round hs with ⟨s1, hround, h1, hrc1⟩ | ⟨s1, hround, h1, hrc1, hne⟩
      · rw [hround] at hloop
        exact ih h1 hrc1 hloop
      · rw [hround] at hloop
        cases hloop
        exact ⟨h1, fun _ => ⟨fun hz => absurd hz hrc1, fun hnil => absurd hnil hne⟩⟩

lemma sendLoop_append
    (h : sendLoop dest routingId outcomes s = (false, s')) (more : List Outcome) :
    sendLoop dest routingId (outcomes ++ more) s = sendLoop dest routingId more s' := by
  induction outcomes generalizing s with
  | nil =>
    obtain ⟨-, rfl⟩ := Prod.mk.inj h
    rfl
  | cons outcome outcomes ih =>
    cases hs : s.frames with
    | nil => rw [sendLoop_of_nil hs] at h; cases h
    | cons frame rest =>
      rw [sendLoop_cons hs] at h
      rw [cons_append, sendLoop_cons hs]
      cases hround : sendRound dest routingId outcome s frame rest with
      | inl s1 =>
        rw [hround] at h
        exact ih h
      | inr s1 => rw [hround] at h; cases h

lemma exists_head_of_sendLoop (h : sendLoop dest routingId outcomes s = (false, s')) :
    ∃ frame rest, s'.frames = frame :: rest := by
  have hmore := sendLoop_append h []
  rw [append_nil, h] at hmore
  cases hs : s'.frames with
  | nil => rw [sendLoop_of_nil hs] at hmore; cases hmore
  | cons frame rest => exact ⟨frame, rest, rfl⟩

lemma count_taken_of_sendLoop (h : sendLoop dest routingId outcomes s = (false, s')) :
    outcomes.count .taken + s'.frames.length = s.frames.length := by
  induction outcomes generalizing s with
  | nil =>
    obtain ⟨-, rfl⟩ := Prod.mk.inj h
    simp
  | cons outcome outcomes ih =>
    cases hs : s.frames with
    | nil => rw [sendLoop_of_nil hs] at h; cases h
    | cons frame rest =>
      rw [sendLoop_cons hs] at h
      cases outcome with
      | taken =>
        have hrest := ih h
        rw [count_cons_self, length_cons]
        dsimp only at hrest
        omega
      | failed errno =>
        rw [sendRound_failed] at h
        split at h
        · exact ih h
        · cases h

end

/-! ## A call -/

structure Accounts (dest : SocketType) (self : Outgoing) (outcomes : List Outcome) : Prop where
  /-- What the socket took and what is left in the message are the message, in its order. -/
  contents : (send dest outcomes (some self)).wire.map (·.data) ++
      (send dest outcomes (some self)).self.elim [] (fun left => contents left.frames) =
    contents self.frames
  /-- A part is sent with `ZFRAME_MORE` where it is not the last of the message. -/
  more : ∀ i (h : i < (send dest outcomes (some self)).wire.length),
    ((send dest outcomes (some self)).wire.get ⟨i, h⟩).more = decide (i + 1 < self.frames.length)
  destroyed : (send dest outcomes (some self)).self = none ↔
    (send dest outcomes (some self)).rc = some 0
  /-- A call that waits behind a first part does not return for an `EINTR`. -/
  retries : (send dest outcomes (some self)).rc = none →
    (send dest outcomes (some self)).wire ≠ [] →
    (send dest (outcomes ++ [.failed eintr]) (some self)).rc = none

/-- `zmsg_send` neither loses nor repeats a frame, whatever the socket answers. -/
theorem send_accounts (dest : SocketType) (self : Outgoing) (outcomes : List Outcome) :
    Accounts dest self outcomes := by
  have hstart : Sending.Of self.frames ⟨0, false, self.frames, []⟩ := ⟨rfl, rfl, rfl⟩
  cases hloop : sendLoop dest self.routingId outcomes ⟨0, false, self.frames, []⟩ with
  | mk ended s =>
    obtain ⟨hof, hend⟩ := hstart.sendLoop (fun _ => rfl) hloop
    have hmore : ∀ i (h : i < s.wire.length),
        (s.wire.get ⟨i, h⟩).more = decide (i + 1 < self.frames.length) := by
      intro i h
      have hget := getElem_of_eq hof.more (by simpa using h)
      simpa using hget
    cases ended with
    | false =>
      have hsend : send dest outcomes (some self) =
          ⟨none, some { self with frames := s.frames }, s.wire⟩ := by
        simp only [send, hloop, Bool.false_eq_true, if_false]
      obtain ⟨frame, rest, hs⟩ := exists_head_of_sendLoop hloop
      constructor
      · rw [hsend]
        exact hof.contents
      · rw [hsend]
        exact hmore
      · rw [hsend]
        simp
      · rw [hsend]
        intro _ hwire
        -- one more round, in which `sent_some` holds
        have hsome : s.sentSome = true := by
          rw [hof.sentSome]
          simpa using hwire
        have hretry := sendLoop_append hloop [.failed eintr]
        rw [sendLoop_cons hs, sendRound_failed, if_pos ⟨rfl, hsome⟩] at hretry
        simp only [send, hretry]
        rfl
    | true =>
      have hsend : send dest outcomes (some self) =
          ⟨some s.rc, if s.rc = 0 then none else some { self with frames := s.frames }, s.wire⟩ := by
        simp only [send, hloop, if_true]
      constructor
      · rw [hsend]
        by_cases hrc : s.rc = 0
        · have hcontents := hof.contents
          rw [(hend rfl).mp hrc] at hcontents
          rw [if_pos hrc]
          exact hcontents
        · rw [if_neg hrc]
          exact hof.contents
      · rw [hsend]
        exact hmore
      · rw [hsend]
        by_cases hrc : s.rc = 0 <;> simp [hrc]
      · rw [hsend]
        intro h
        cases h

/-- `zmsg_send` returns if as many frames are taken as the message has. -/
theorem send_returns (dest : SocketType) (self : Outgoing) (outcomes : List Outcome)
    (h : self.frames.length ≤ outcomes.count .taken) :
    (send dest outcomes (some self)).rc ≠ none := by
  cases hloop : sendLoop dest self.routingId outcomes ⟨0, false, self.frames, []⟩ with
  | mk ended s =>
    cases ended with
    | true => simp [send, hloop]
    | false =>
      have hcount := count_taken_of_sendLoop hloop
      obtain ⟨frame, rest, hs⟩ := exists_head_of_sendLoop hloop
      rw [hs, length_cons] at hcount
      dsimp only at hcount
      omega

theorem send_returns_eintr : (send .other [.taken, .failed eintr, .failed eintr, .taken]
    (some ⟨[⟨[1], 0, ⟨[], by simp⟩⟩, ⟨[], 0, ⟨[], by simp⟩⟩], 1, 0⟩)).rc ≠ none :=
  send_returns _ _ _ (by decide)

end Zmsg

end Czmq
