import Czmq.Fault

/-! OSC messages, on a little-endian machine. `zosc_create` writes address, format and arguments
into a chunk, padded to multiples of four, and `zosc_retr` goes over a format with a position in it.
Floating point numbers are their bits. -/

namespace Czmq.Zosc

open Bytes

structure Chunk where
  data : List UInt8
  maxSize : Nat

def Chunk.extend (self : Chunk) (bytes : List UInt8) : Chunk :=
  let size := self.data.length + bytes.length
  { data := self.data ++ bytes, maxSize := if size > self.maxSize then size * 2 else self.maxSize }

def aligned (size : Nat) : Nat := (size + 3) / 4 * 4

def Chunk.align (self : Chunk) : Chunk :=
  let padding := aligned self.data.length - self.data.length
  if padding ≠ 0 then self.extend (List.replicate padding 0) else self

def Chunk.buffer (junk : Nat → UInt8) (self : Chunk) : List UInt8 :=
  self.data ++ (List.range' self.data.length (self.maxSize - self.data.length)).map junk

inductive Tag where
  | int | long | float | double | string | char | midi | yes | no | nil | infinitum | other
  deriving DecidableEq

def Tag.ofChar : Char → Tag
  | 'i' => .int
  | 'h' => .long
  | 'f' => .float
  | 'd' => .double
  | 's' => .string
  | 'c' => .char
  | 'm' => .midi
  | 'T' => .yes
  | 'F' => .no
  | 'N' => .nil
  | 'I' => .infinitum
  -- blobs and symbols among them, for which the switches do nothing
  | _ => .other

def Tag.carries : Tag → Bool
  | .int | .long | .float | .double | .string | .char | .midi => true
  | .yes | .no | .nil | .infinitum | .other => false

inductive Value where
  | int (n : UInt32)
  | long (n : UInt64)
  | float (bits : UInt32)
  | double (bits : UInt64)
  | string (s : CString)
  | char (c : UInt8)
  | midi (n : UInt32)
  | bool (b : Bool)
  deriving DecidableEq

def Value.tag : Value → Tag
  | .int _ => .int
  | .long _ => .long
  | .float _ => .float
  | .double _ => .double
  | .string _ => .string
  | .char _ => .char
  | .midi _ => .midi
  | .bool true => .yes
  | .bool false => .no

def put (chunk : Chunk) : Value → Chunk
  | .int n => chunk.extend (toBytes 4 n.toNat)
  | .long n => chunk.extend (toBytes 8 n.toNat)
  | .float bits => chunk.extend (toBytes 4 bits.toNat)
  | .double bits => chunk.extend (toBytes 8 bits.toNat)
  | .string s => (chunk.extend (s.1 ++ [0])).align
  | .char c => chunk.extend [0, 0, 0, c]
  -- in host order
  | .midi n => chunk.extend (toLittle 4 n.toNat)
  | .bool _ => chunk

def appendData : List Char → List Value → Chunk → Except Fault Chunk
  | [], _, chunk => .ok chunk
  | c :: format, args, chunk =>
    if (Tag.ofChar c).carries then
      match args with
      | [] => .error .badArgument
      | arg :: args =>
        if arg.tag = Tag.ofChar c then appendData format args (put chunk arg)
        else .error .badArgument
    else appendData format args chunk

structure Message where
  chunk : Chunk
  format : Nat
  dataBegin : Nat

def formatBytes (format : List Char) : List UInt8 := format.map fun c => UInt8.ofNat c.toNat

def header (address : CString) (format : List Char) : Chunk :=
  let chunk : Chunk := ⟨[], address.1.length + format.length * 10 + 2⟩
  let chunk := (chunk.extend (address.1 ++ [0])).align
  let chunk := chunk.extend [44]
  (chunk.extend (formatBytes format ++ [0])).align

def create (address : CString) (format : List Char) (args : List Value) : Except Fault Message := do
  let head := header address format
  let chunk ← appendData format args head
  pure { chunk := chunk, format := aligned (address.1.length + 1) + 1, dataBegin := head.data.length }

def loadAt (buffer : List UInt8) (p n : Nat) : Except Fault (List UInt8) :=
  if p + n ≤ buffer.length then .ok ((buffer.drop p).take n) else .error (.outOfBounds p)

def stringAt (buffer : List UInt8) (p : Nat) : Except Fault CString :=
  let s := CString.ofBuffer (buffer.drop p)
  if p + s.1.length < buffer.length then .ok s else .error (.outOfBounds p)

def number (buffer : List UInt8) (needle width : Nat) (value : Nat → Value) :
    Except Fault (List Value × Nat) :=
  (loadAt buffer needle width).map fun bs => ([value (ofBytes bs)], needle + width)

/-- One tag of `zosc_retr`: what it stores, and where the needle is then. -/
def get (buffer : List UInt8) (needle : Nat) : Tag → Except Fault (List Value × Nat)
  | .int => number buffer needle 4 fun n => .int (UInt32.ofNat n)
  | .long => number buffer needle 8 fun n => .long (UInt64.ofNat n)
  | .float => number buffer needle 4 fun n => .float (UInt32.ofNat n)
  | .double => number buffer needle 8 fun n => .double (UInt64.ofNat n)
  | .string => (stringAt buffer needle).map fun s =>
      ([.string s], aligned (needle + (s.1.length + 1)))
  | .char => (loadAt buffer (needle + 3) 1).map fun bs => ([.char (bs.headD 0)], needle + 4)
  | .midi => number buffer needle 4 fun n => .midi (UInt32.ofNat n)
  | .yes => .ok ([.bool true], needle)
  | .no => .ok ([.bool false], needle)
  -- nothing was written for these
  | .nil | .infinitum => .ok ([], needle + 1)
  | .other => .ok ([], needle)

def getAll (buffer : List UInt8) : List Char → Nat → Except Fault (List Value)
  | [], _ => .ok []
  | c :: format, needle =>
    get buffer needle (Tag.ofChar c) >>= fun x =>
      (getAll buffer format x.2).map fun values => x.1 ++ values

def retr (junk : Nat → UInt8) (self : Message) (format : List Char) : Except Fault (List Value) :=
  getAll (self.chunk.buffer junk) format self.dataBegin

def Fits (format : List Char) (args : List Value) : Prop :=
  args.map Value.tag = (format.map Tag.ofChar).filter Tag.carries

/-- The arguments, with `true` for each `'T'` and `false` for each `'F'` between them. -/
def expected : List Char → List Value → List Value
  | [], _ => []
  | c :: format, args =>
    match Tag.ofChar c with
    | .yes => .bool true :: expected format args
    | .no => .bool false :: expected format args
    | .nil | .infinitum | .other => expected format args
    | .int | .long | .float | .double | .string | .char | .midi =>
      args.take 1 ++ expected format args.tail

def Covered (format : List Char) : Prop :=
  ∀ c ∈ format, c ∈ ['i', 'h', 'f', 'd', 's', 'c', 'T', 'F', 'N', 'I']

instance (format : List Char) : Decidable (Covered format) :=
  List.decidableBAll (· ∈ ['i', 'h', 'f', 'd', 's', 'c', 'T', 'F', 'N', 'I']) format

/-- Whatever the arguments and the memory behind them, what is written is read back. -/
def RoundTrips (address : CString) (format : List Char) : Prop :=
  ∀ args, Fits format args → ∀ junk, ∃ msg, create address format args = .ok msg ∧
    retr junk msg format = .ok (expected format args)

end Czmq.Zosc
