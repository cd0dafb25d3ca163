import Czmq.Fault
import Czmq.Zgossip.Network

/-! The codec of `zgossip_msg.c`. A receiver keeps one object for all messages. -/

namespace Czmq

open List Bytes Zgossip

/-- `zgossip_msg_t`, with the ids 1 HELLO, 2 PUBLISH, 3 PING, 4 PONG and 5 INVALID. -/
structure ZgossipMsg where
  routingId : Option (List UInt8)
  id : Nat
  key : { key : CString // key.1.length ≤ 255 }
  value : Option CString
  ttl : UInt32

namespace ZgossipMsg

/-- Without a value an empty one is sent. -/
def text (self : ZgossipMsg) : CString := self.value.getD (.ofBuffer [0])

def frameSize (self : ZgossipMsg) : Nat :=
  match self.id with
  | 2 => 3 + 1 + (1 + self.key.1.1.length) + 4 + self.text.1.length + 4
  | 1 | 3 | 4 | 5 => 3 + 1
  | _ => 3

def tuple (key value : List UInt8) (ttl : Nat) (rest : List UInt8) : List UInt8 :=
  toBytes 1 key.length ++ (key ++ (toBytes 4 value.length ++ (value ++ (toBytes 4 ttl ++ rest))))

def serialize (self : ZgossipMsg) : List UInt8 :=
  toBytes 2 0xAAA0 ++ (toBytes 1 self.id ++
    match self.id with
    | 2 => toBytes 1 1 ++ tuple self.key.1.1 self.text.1 self.ttl.toNat []
    | 1 | 3 | 4 | 5 => toBytes 1 1
    | _ => [])

/-- `zgossip_msg_send`: the frames sent. It is a fault not to fill the frame. -/
def send (router : Bool) (self : ZgossipMsg) : Except Fault (List (List UInt8)) :=
  if self.serialize.length = self.frameSize then
    .ok ((if router then self.routingId.toList else []) ++ [self.serialize])
  else .error (.outOfBounds self.frameSize)

/-- What is read from the bytes between `needle` and `ceiling`, and those behind it. -/
def getOctets (n : Nat) (data : List UInt8) : Option (List UInt8 × List UInt8) :=
  if n ≤ data.length then some (data.take n, data.drop n) else none

def getNumber (n : Nat) (data : List UInt8) : Option (Nat × List UInt8) :=
  (getOctets n data).map fun x => (ofBytes x.1, x.2)

def getString (n : Nat) (data : List UInt8) : Option (List UInt8 × List UInt8) :=
  (getNumber n data).bind fun x => getOctets x.1 x.2

/-- A `goto malformed` leaves the object as it is at that point. -/
def orMalformed {α : Type} (self : ZgossipMsg) (x : Option α) : Except ZgossipMsg α :=
  x.elim (.error self) .ok

/-- The key in its array, which a length of one byte fits. -/
def stringOf (key : List UInt8) : { key : CString // key.1.length ≤ 255 } :=
  ⟨.ofBuffer (key.take 255 ++ [0]), (CString.length_ofBuffer_le _).trans (length_take_le ..)⟩

def parse (self : ZgossipMsg) (data : List UInt8) : Except ZgossipMsg ZgossipMsg := do
  let (signature, data) ← orMalformed self (getNumber 2 data)
  if signature ≠ 0xAAA0 then .error self else do
  let (id, data) ← orMalformed self (getNumber 1 data)
  let self := { self with id := id }
  if id = 0 ∨ 5 < id then .error self else do
  let (version, data) ← orMalformed self (getNumber 1 data)
  if version ≠ 1 then .error self else
  if id ≠ 2 then .ok self else do
  let (key, data) ← orMalformed self (getString 1 data)
  let self := { self with key := stringOf key }
  let (value, data) ← orMalformed self (getString 4 data)
  let self := { self with value := some (.ofBuffer (value ++ [0])) }
  let (ttl, _) ← orMalformed self (getNumber 4 data)
  .ok { self with ttl := UInt32.ofNat ttl }

/-- `zgossip_msg_recv`, with no frames after an interrupt. -/
def recv (router : Bool) (self : ZgossipMsg) (frames : List (List UInt8)) : Int × ZgossipMsg :=
  let (self, frames) :=
    if router then ({ self with routingId := frames.head? }, frames.tail) else (self, frames)
  match frames with
  | [] => (-1, self)
  | data :: _ => match self.parse data with
    | .ok self => (0, self)
    | .error self => (-1, self)

section
variable {n k : Nat} {data text rest : List UInt8}

lemma getOctets_iff : getOctets n data = some (text, rest) ↔
    text.length = n ∧ data = text ++ rest := by
  rw [getOctets]
  constructor
  · intro h
    split at h
    · next hle =>
      cases h
      exact ⟨length_take_of_le hle, (take_append_drop ..).symm⟩
    · cases h
  · rintro ⟨rfl, rfl⟩
    rw [if_pos (by simp), take_left, drop_left]

lemma getNumber_iff : getNumber n data = some (k, rest) ↔
    k < 256 ^ n ∧ data = toBytes n k ++ rest := by
  simp only [getNumber, Option.map_eq_some_iff, Prod.exists, getOctets_iff, Prod.mk.injEq]
  constructor
  · rintro ⟨text, -, ⟨hlen, rfl⟩, rfl, rfl⟩
    rw [toBytes_ofBytes hlen]
    exact ⟨hlen ▸ ofBytes_lt text, rfl⟩
  · rintro ⟨hlt, rfl⟩
    exact ⟨_, _, ⟨length_toBytes .., rfl⟩, ofBytes_toBytes_of_lt hlt, rfl⟩

lemma getString_iff : getString n data = some (text, rest) ↔
    text.length < 256 ^ n ∧ data = toBytes n text.length ++ (text ++ rest) := by
  simp only [getString, Option.bind_eq_some_iff, Prod.exists, getNumber_iff, getOctets_iff]
  constructor
  · rintro ⟨size, tail, ⟨hlt, rfl⟩, rfl, rfl⟩
    exact ⟨hlt, rfl⟩
  · rintro ⟨hlt, rfl⟩
    exact ⟨_, _, ⟨hlt, rfl⟩, rfl, rfl⟩

end

variable {self m : ZgossipMsg}

lemma read_eq_ok {α : Type} {x : Option α} {f : α → Except ZgossipMsg ZgossipMsg} :
    orMalformed self x >>= f = .ok m ↔ ∃ a, x = some a ∧ f a = .ok m := by
  cases x <;> simp [orMalformed, bind, Except.bind]

/-- A frame that is a message with the id, and the object after it. -/
def Accepts (self : ZgossipMsg) (id : Nat) (data : List UInt8) (m : ZgossipMsg) : Prop :=
  (1 ≤ id ∧ id ≤ 5) ∧ ∃ body, data = toBytes 2 0xAAA0 ++ (toBytes 1 id ++ (toBytes 1 1 ++ body)) ∧
    (id ≠ 2 ∧ m = { self with id := id } ∨ id = 2 ∧ ∃ key value ttl rest,
      (key.length < 256 ^ 1 ∧ value.length < 256 ^ 4 ∧ ttl < 256 ^ 4) ∧
      body = tuple key value ttl rest ∧ m = { self with
        id := 2, key := stringOf key, value := some (.ofBuffer (value ++ [0])),
        ttl := UInt32.ofNat ttl })

lemma Accepts.parse {id : Nat} {data : List UInt8} (h : Accepts self id data m) :
    self.parse data = .ok m := by
  obtain ⟨hid, body, rfl, hbody⟩ := h
  simp only [ZgossipMsg.parse, read_eq_ok, ite_eq_iff, reduceCtorEq, and_false, false_or,
    Prod.exists, getNumber_iff, getString_iff]
  refine ⟨_, _, ⟨by decide, rfl⟩, by decide, id, _, ⟨by omega, rfl⟩, by omega, _, _,
    ⟨by decide, rfl⟩, by decide, ?_⟩
  rcases hbody with ⟨hne, rfl⟩ | ⟨rfl, key, value, ttl, rest, ⟨hkey, hvalue, httl⟩, rfl, rfl⟩
  · exact .inl ⟨hne, rfl⟩
  · exact .inr ⟨by decide, _, _, ⟨hkey, rfl⟩, _, _, ⟨hvalue, rfl⟩, _, _, ⟨httl, rfl⟩, rfl⟩

/-- A frame is taken exactly if it is laid out as a message, which the object then holds. -/
theorem parse_eq_ok_iff (self m : ZgossipMsg) (data : List UInt8) :
    self.parse data = .ok m ↔ ∃ id, Accepts self id data m := by
  refine ⟨fun h => ?_, fun ⟨id, h⟩ => h.parse⟩
  simp only [parse, read_eq_ok, ite_eq_iff, reduceCtorEq, and_false, false_or, not_not,
    Prod.exists, getNumber_iff, getString_iff] at h
  obtain ⟨_, _, ⟨-, rfl⟩, rfl, id, _, ⟨-, rfl⟩, hid, _, body, ⟨-, rfl⟩, rfl, hbody⟩ := h
  refine ⟨id, by omega, body, rfl, ?_⟩
  rcases hbody with ⟨hne, h⟩ | ⟨rfl, key, _, ⟨hkey, rfl⟩, value, _, ⟨hvalue, rfl⟩, ttl, rest,
    ⟨httl, rfl⟩, h⟩
  · cases h
    exact .inl ⟨hne, rfl⟩
  · cases h
    exact .inr ⟨rfl, key, value, ttl, rest, ⟨hkey, hvalue, httl⟩, rfl, rfl⟩

def message (self : ZgossipMsg) : Option (Message CString CString) :=
  match self.id with
  | 1 => some .hello
  | 2 => some (.publish self.key.1 self.text)
  | 3 => some .ping
  | 4 => some .pong
  | 5 => some .invalid
  | _ => none

/-- A node sends to the `ROUTER` of a server, which gets its identity in front. -/
def exchange (identity : List UInt8) (receiver sender : ZgossipMsg) :
    Except Fault ((Int × Option (Message CString CString)) × ZgossipMsg) := do
  let frames ← sender.send false
  let (rc, receiver) := receiver.recv true (identity :: frames)
  .ok ((rc, receiver.message), receiver)

def Sendable (m : ZgossipMsg) : Prop := (1 ≤ m.id ∧ m.id ≤ 5) ∧ m.text.1.length < 2 ^ 32

lemma length_serialize (m : ZgossipMsg) : m.serialize.length = m.frameSize := by
  unfold serialize frameSize
  split
  · simp [tuple]
    omega
  all_goals simp

lemma stringOf_key (m : ZgossipMsg) : stringOf m.key.1.1 = m.key := by
  simp [stringOf, take_of_length_le m.key.2, CString.ofBuffer_terminated]

lemma Sendable.accepts (hm : Sendable m) (self : ZgossipMsg) :
    ∃ self', Accepts self m.id m.serialize self' ∧ self'.message = m.message := by
  obtain ⟨hid, htext⟩ := hm
  by_cases hpublish : m.id = 2
  · refine ⟨_, ⟨hid, _, by simp [serialize, hpublish], .inr ⟨hpublish, m.key.1.1, m.text.1,
      m.ttl.toNat, [], ⟨Nat.lt_succ_of_le m.key.2, htext, m.ttl.toNat_lt⟩, rfl, rfl⟩⟩, ?_⟩
    simp [message, hpublish, stringOf_key, text, CString.ofBuffer_terminated]
  · have hother : m.id = 1 ∨ m.id = 3 ∨ m.id = 4 ∨ m.id = 5 := by omega
    refine ⟨{ self with id := m.id }, ⟨hid, [], ?_, .inl ⟨hpublish, rfl⟩⟩, ?_⟩
    · rcases hother with h | h | h | h <;> simp [serialize, h]
    · rcases hother with h | h | h | h <;> simp [message, h]

lemma Sendable.exchange (hm : Sendable m) (identity : List UInt8) (self : ZgossipMsg) :
    ∃ self', exchange identity self m = .ok ((0, m.message), self') := by
  obtain ⟨self', haccepts, hmessage⟩ := hm.accepts { self with routingId := some identity }
  refine ⟨self', ?_⟩
  simp [ZgossipMsg.exchange, send, length_serialize, recv, haccepts.parse, hmessage, bind,
    Except.bind]

/-- Each message arrives as it was sent, whatever those before it left in the receiver's object. -/
theorem exchange_delivers (identity : List UInt8) (self : ZgossipMsg) {ms : List ZgossipMsg}
    (hms : ∀ m ∈ ms, Sendable m) :
    ∃ self', Machine.run (exchange identity) self ms =
      .ok (ms.map fun m => (0, m.message), self') := by
  induction ms generalizing self with
  | nil => exact ⟨self, rfl⟩
  | cons m ms ih =>
    rw [forall_mem_cons] at hms
    obtain ⟨self1, hstep⟩ := hms.1.exchange identity self
    obtain ⟨self', hrun⟩ := ih self1 hms.2
    refine ⟨self', ?_⟩
    rw [Machine.run_cons_ok hstep, hrun]
    rfl

theorem exchange_delivers_publish : ∃ self', Machine.run (exchange [7])
    ⟨none, 3, stringOf [], none, 0⟩ [⟨none, 2, stringOf [97], none, 9⟩] =
      .ok ([(0, some (.publish (stringOf [97]).1 (.ofBuffer [0])))], self') :=
  exchange_delivers [7] _ (by simp [Sendable, text, CString.ofBuffer, cstr])

end ZgossipMsg

end Czmq
