import Czmq.Base.Decimal
import Czmq.Zmsg.Send
import Czmq.Zsock.Picture

/-! Picture messages: `zsock_vsend` makes one frame for each element, numbers as decimal text, and
`zsock_vrecv` pops the frames in the order of its picture if the message is no signal. -/

namespace Czmq

open Bytes Decimal

namespace Zmsg

def pop (self : Zmsg) : Option (List UInt8) × Zmsg :=
  match self.frames with
  | [] => (none, self)
  | frame :: frames => (some frame, ⟨frames, ptrSub self.contentSize frame.length⟩)

def popstr (self : Zmsg) : Option (List UInt8) × Zmsg :=
  (self.pop.1.map (· ++ [0]), self.pop.2)

def signalValue : Nat := 0x7766554433221100

def newSignal (status : UInt8) : Zmsg := new.append (toLittle 8 (signalValue + status.toNat))

def signal (self : Zmsg) : Int :=
  match self.frames with
  | [frame] =>
    let value := ofLittle (frame.take 8)
    if self.contentSize = 8 ∧ value &&& 0xFFFFFFFFFFFFFF00 = signalValue then
      (value &&& 255 : Nat)
    else -1
  | _ => -1

end Zmsg

namespace Zsock

/-- The elements of a picture; `packed` is a hash or a list, sent as packed. -/
inductive Item where
  | int | number1 | number2 | number4 | number8 | uint | string | binary | chunk | frame | uuid
  | pointer | packed | msg | zero
  deriving DecidableEq

def Item.ofChar : Char → Option Item
  | 'i' => some .int
  | '1' => some .number1
  | '2' => some .number2
  | '4' => some .number4
  | '8' => some .number8
  | 'u' => some .uint
  | 's' => some .string
  | 'b' => some .binary
  | 'c' => some .chunk
  | 'f' => some .frame
  | 'U' => some .uuid
  | 'p' => some .pointer
  | 'h' | 'l' => some .packed
  | 'm' => some .msg
  | 'z' => some .zero
  | _ => none

/-- What is sent and stored for an element, `none` for `NULL`; `'b'` has data and size in one value.
-/
inductive Value where
  | int (n : Int32)
  | number1 (n : UInt8)
  | number2 (n : UInt16)
  | number4 (n : UInt32)
  | number8 (n : UInt64)
  | uint (n : UInt32)
  | string (string : Option CString)
  | binary (data : Option (List UInt8))
  | chunk (data : Option (List UInt8))
  | frame (data : Option (List UInt8))
  | uuid (data : Option (List.Vector UInt8 16))
  | pointer (repr : List.Vector UInt8 8)
  | packed (data : Option (List UInt8))
  | msg (frames : Option (List (List UInt8)))
  deriving DecidableEq

def Value.item : Value → Item
  | .int _ => .int
  | .number1 _ => .number1
  | .number2 _ => .number2
  | .number4 _ => .number4
  | .number8 _ => .number8
  | .uint _ => .uint
  | .string _ => .string
  | .binary _ => .binary
  | .chunk _ => .chunk
  | .frame _ => .frame
  | .uuid _ => .uuid
  | .pointer _ => .pointer
  | .packed _ => .packed
  | .msg _ => .msg

def sendItem (msg : Zmsg) : Value → Except Fault Zmsg
  | .int n => .ok (msg.append (printInt n.toInt))
  | .number1 n => .ok (msg.append (print n.toNat))
  | .number2 n => .ok (msg.append (print n.toNat))
  | .number4 n => .ok (msg.append (print n.toNat))
  | .number8 n => .ok (msg.append (print n.toNat))
  -- the format is `%ud`
  | .uint n => .ok (msg.append (print n.toNat ++ [100]))
  | .string (some string) => .ok (msg.append string.1)
  | .binary data => .ok (msg.append (data.getD []))
  | .chunk (some data) => .ok (msg.append data)
  | .frame (some data) => .ok (msg.append data)
  | .uuid (some data) => .ok (msg.append data.toList)
  | .pointer repr => .ok (msg.append repr.toList)
  | .packed (some data) => .ok (msg.append data)
  | .msg (some frames) => .ok (frames.foldl Zmsg.append msg)
  | .string none | .chunk none | .frame none | .uuid none | .packed none | .msg none =>
    .error .assertion

def sendItems : List Char → List Value → Zmsg → Except Fault Zmsg
  | [], _, msg => .ok msg
  | c :: picture, args, msg =>
    match Item.ofChar c, args with
    | none, _ => .error .assertion
    | some .zero, args => sendItems picture args (msg.append [])
    | some _, [] => .error .badArgument
    | some item, arg :: args =>
      if arg.item = item then sendItem msg arg >>= sendItems picture args
      else .error .badArgument

def outgoing (msg : Zmsg) : Outgoing where
  frames := msg.frames.map fun data => ⟨data, 0, ⟨[], zero_not_mem_nil⟩⟩
  contentSize := msg.contentSize
  routingId := 0

/-- `zsock_vsend`, on the answers of the socket; an unsent message is destroyed. -/
def vsend (dest : SocketType) (outcomes : List Outcome) (picture : List Char) (args : List Value) :
    Except Fault Zmsg.Call := do
  let msg ← sendItems picture args Zmsg.new
  let call := Zmsg.send dest outcomes (some (outgoing msg))
  pure (if call.rc = none ∨ call.rc = some 0 then call else { call with self := none })

/-! ## The receiver -/

structure Receiving where
  rc : Int
  msg : Zmsg
  stored : List Value

def Receiving.store (s : Receiving) (wanted : Bool) (msg : Zmsg) (value : Value) : Receiving :=
  { s with msg := msg, stored := if wanted then s.stored ++ [value] else s.stored }

def Receiving.number (s : Receiving) (wanted : Bool) (read : List UInt8 → Value) (zero : Value) :
    Receiving :=
  s.store wanted s.msg.popstr.2 (s.msg.popstr.1.elim zero read)

def Receiving.data (s : Receiving) (wanted : Bool) (value : Option (List UInt8) → Value) :
    Receiving :=
  s.store wanted s.msg.pop.2 (value s.msg.pop.1)

/-- One element of `zsock_vrecv`, and whether its pointer is there. -/
def recvItem (s : Receiving) (wanted : Bool) : Item → Except Fault Receiving
  | .int => .ok (s.number wanted (fun t => .int (Int32.ofInt (atoi t))) (.int 0))
  | .number1 => .ok (s.number wanted (fun t => .number1 (UInt8.ofInt (atoi t))) (.number1 0))
  | .number2 => .ok (s.number wanted (fun t => .number2 (UInt16.ofInt (strtol t))) (.number2 0))
  | .number4 => .ok (s.number wanted (fun t => .number4 (UInt32.ofNat (strtoul t))) (.number4 0))
  | .number8 => .ok (s.number wanted (fun t => .number8 (UInt64.ofNat (strtoul t))) (.number8 0))
  | .uint => .ok (s.number wanted (fun t => .uint (UInt32.ofNat (strtoul t))) (.uint 0))
  | .string =>
    .ok (s.store wanted s.msg.popstr.2 (.string (s.msg.popstr.1.map CString.ofBuffer)))
  | .binary => .ok (s.data wanted .binary)
  | .chunk => .ok (s.data wanted .chunk)
  | .frame => .ok (s.data wanted .frame)
  | .packed => .ok (s.data wanted .packed)
  | .uuid =>
    match s.msg.pop.1 with
    | none => .ok (s.store wanted s.msg.pop.2 (.uuid none))
    | some frame =>
      -- `zuuid_set` copies 16 bytes from the frame
      if h : 16 ≤ frame.length then
        .ok (s.store wanted s.msg.pop.2
          (.uuid (some ⟨frame.take 16, List.length_take_of_le h⟩)))
      else if wanted then .error (.outOfBounds frame.length)
      else .ok { s with msg := s.msg.pop.2 }
  | .pointer =>
    match s.msg.pop.1 with
    | none => .ok (s.store wanted s.msg.pop.2 (.pointer ⟨List.replicate 8 0, rfl⟩))
    | some frame =>
      if h : frame.length = 8 then .ok (s.store wanted s.msg.pop.2 (.pointer ⟨frame, h⟩))
      else .ok { s with rc := if wanted then -1 else s.rc, msg := s.msg.pop.2 }
  | .msg =>
    -- without a pointer the frames stay where they are
    if wanted then
      .ok (s.store true ⟨[], s.msg.frames.foldl (fun n f => ptrSub n f.length) s.msg.contentSize⟩
        (.msg (some s.msg.frames)))
    else .ok s
  | .zero =>
    let rc := if s.msg.pop.1.any (·.length ≠ 0) then -1 else s.rc
    .ok { s with rc := rc, msg := s.msg.pop.2 }

def recvItems : List Char → List Bool → Receiving → Except Fault Receiving
  | [], _, s => .ok s
  | c :: picture, wanted, s =>
    match Item.ofChar c, wanted with
    | none, _ => .error .assertion
    | some .zero, wanted => recvItem s false .zero >>= recvItems picture wanted
    | some _, [] => .error .badArgument
    | some item, w :: wanted => recvItem s w item >>= recvItems picture wanted

/-- `zsock_vrecv` on the parts that arrive: its return code and the values stored. -/
def vrecv (wanted : List Bool) (picture : List Char) (parts : List (List UInt8 × Bool)) :
    Except Fault (Int × List Value) :=
  zmsgRecv Zmsg.new parts >>= fun x =>
    if x.1.signal ≥ 0 then .ok (-1, [])
    else recvItems picture wanted ⟨0, x.1, []⟩ >>= fun s => .ok (s.rc, s.stored)

def delivered (wire : List Part) : List (List UInt8 × Bool) := wire.map fun p => (p.data, p.more)

/-- An argument is there and an object, the size of binary data is an `int`, and a message has a
frame. -/
def Value.sendable : Value → Bool
  | .string s => s.any (·.1.length < 2 ^ 63)
  | .binary data => data.any (·.length < 2 ^ 31)
  | .chunk data | .frame data | .packed data => data.any (·.length < 2 ^ 63)
  | .uuid data => data.isSome
  | .msg frames => frames.any fun fs => fs ≠ [] ∧ ∀ f ∈ fs, f.length < 2 ^ 63
  | _ => true

/-- The arguments match the picture, in which `'m'` is at most the last element. -/
inductive Fits : List Char → List Value → Prop
  | nil : Fits [] []
  | zero {c : Char} {picture : List Char} {args : List Value} (hc : Item.ofChar c = some .zero)
      (h : Fits picture args) : Fits (c :: picture) args
  | item {c : Char} {picture : List Char} {arg : Value} {args : List Value}
      (hc : Item.ofChar c = some arg.item) (harg : arg.sendable = true)
      (hlast : arg.item = .msg → picture = []) (h : Fits picture args) :
      Fits (c :: picture) (arg :: args)

end Zsock

end Czmq
