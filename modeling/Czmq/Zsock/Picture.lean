import Czmq.Zmsg.Codec
import Mathlib.Data.Vector.Basic

/-! The binary picture codec of `zsock.c`. `zsock_bsend` goes over picture and arguments twice, for
the size of the data frame and for its bytes; `zsock_brecv` goes over its picture once. -/

namespace Czmq

open Bytes

inductive Element where
  | number1 | number2 | number4 | number8 | string | longstr | chunk | pointer | frame | uuid | msg
  deriving DecidableEq

def Element.ofChar : Char → Option Element
  | '1' => some .number1
  | '2' => some .number2
  | '4' => some .number4
  | '8' => some .number8
  | 's' => some .string
  | 'S' => some .longstr
  | 'c' => some .chunk
  | 'p' => some .pointer
  | 'f' => some .frame
  | 'u' => some .uuid
  | 'm' => some .msg
  | _ => none

/-- The arguments of `zsock_bsend`, `none` for `NULL`. A pointer is its bytes. -/
inductive Arg where
  | number1 (n : UInt8)
  | number2 (n : UInt16)
  | number4 (n : UInt32)
  | number8 (n : UInt64)
  | string (string : Option CString)
  | longstr (string : Option CString)
  | chunk (data : Option (List UInt8))
  | pointer (repr : List.Vector UInt8 8)
  | frame (data : Option (List UInt8))
  | uuid (data : Option (List.Vector UInt8 16))
  | msg (msg : Option Zmsg)

def Arg.element : Arg → Element
  | .number1 _ => .number1
  | .number2 _ => .number2
  | .number4 _ => .number4
  | .number8 _ => .number8
  | .string _ => .string
  | .longstr _ => .longstr
  | .chunk _ => .chunk
  | .pointer _ => .pointer
  | .frame _ => .frame
  | .uuid _ => .uuid
  | .msg _ => .msg

def overPicture {σ : Type} (body : Bool → σ → Arg → Except Fault σ) :
    List Char → List Arg → σ → Except Fault σ
  | [], _, s => .ok s
  | c :: picture, args, s =>
    match Element.ofChar c, args with
    | none, _ => .error .assertion
    | some _, [] => .error .badArgument
    | some e, arg :: args =>
      if arg.element = e then do
        let s ← body picture.isEmpty s arg
        overPicture body picture args s
      else .error .badArgument

namespace Zsock

def bsendMaxFrames : Nat := 32

/-- The bytes of a string argument; `NULL` is the empty string. -/
def stringBytes (string : Option CString) : List UInt8 := string.elim [] (·.1)

def addFrame (frames : List (Option (List UInt8))) (frame : Option (List UInt8)) :
    Except Fault (List (Option (List UInt8))) :=
  if frames.length < bsendMaxFrames - 1 then .ok (frames ++ [frame]) else .error .assertion

/-- Pass 1 on one argument: the size of the data frame, and the table of frames. -/
def count (last : Bool) (s : Nat × List (Option (List UInt8))) :
    Arg → Except Fault (Nat × List (Option (List UInt8)))
  | .number1 _ => .ok ((s.1 + 1) % 2 ^ 64, s.2)
  | .number2 _ => .ok ((s.1 + 2) % 2 ^ 64, s.2)
  | .number4 _ => .ok ((s.1 + 4) % 2 ^ 64, s.2)
  | .number8 _ => .ok ((s.1 + 8) % 2 ^ 64, s.2)
  | .string string => .ok ((s.1 + (1 + (stringBytes string).length)) % 2 ^ 64, s.2)
  | .longstr string => .ok ((s.1 + (4 + (stringBytes string).length)) % 2 ^ 64, s.2)
  | .chunk chunk => .ok ((s.1 + (4 + (chunk.elim 0 List.length))) % 2 ^ 64, s.2)
  | .pointer _ => .ok ((s.1 + 8) % 2 ^ 64, s.2)
  | .frame frame => do
    let frames ← addFrame s.2 frame
    pure (s.1, frames)
  | .uuid none => .error .assertion
  | .uuid (some _) => .ok ((s.1 + 16) % 2 ^ 64, s.2)
  | .msg msg =>
    if last then
      match msg with
      | some msg => do
        let frames ← (msg.frames.map some).foldlM addFrame s.2
        pure (s.1, frames)
      -- the one frame that is stored without a look at the table's size
      | none => .ok (s.1, s.2 ++ [some []])
    else .error .assertion

def put : Arg → List UInt8
  | .number1 n => toBytes 1 n.toNat
  | .number2 n => toBytes 2 n.toNat
  | .number4 n => toBytes 4 n.toNat
  | .number8 n => toBytes 8 n.toNat
  | .pointer repr => repr.toList
  | .string string => toBytes 1 (stringBytes string).length ++ stringBytes string
  | .longstr string => toBytes 4 (stringBytes string).length ++ stringBytes string
  | .chunk (some data) => toBytes 4 data.length ++ data
  | .uuid (some data) => data.toList
  | .chunk none | .uuid none | .frame _ | .msg _ => []

def fill (size : Nat) (written : List UInt8) (arg : Arg) : Except Fault (List UInt8) :=
  let written := written ++ put arg
  if written.length ≤ size then .ok written else .error (.outOfBounds size)

/-- The loop that sends the table of frames, without those that are `NULL`. -/
def sendFrames : List (Option (List UInt8)) → List (List UInt8 × Bool)
  | [] => []
  | frame :: frames =>
    let more := !frames.isEmpty
    frame.toList.map (·, more) ++ sendFrames frames

/-- `zsock_bsend`: the frames sent. Bytes that pass 2 does not write are `junk`. -/
def bsend (junk : Nat → UInt8) (picture : List Char) (args : List Arg) :
    Except Fault (List (List UInt8 × Bool)) := do
  let (frameSize, frames) ← overPicture count picture args (0, [])
  let written ← overPicture (fun _ => fill frameSize) picture args []
  let rest := (List.range' written.length (frameSize - written.length)).map junk
  pure ((written ++ rest, !frames.isEmpty) :: sendFrames frames)

/-! ## The receiver -/

def maxAllocSize : Nat := 1024 * 1024

/-- The string cache. `generation` counts the times `realloc` moved it. -/
structure Cache where
  generation : Nat
  data : List UInt8

/-- What `zsock_brecv` stores; a string is a pointer into the cache. -/
inductive Output where
  | number1 (n : UInt8)
  | number2 (n : UInt16)
  | number4 (n : UInt32)
  | number8 (n : UInt64)
  | string (generation offset : Nat)
  | longstr (buffer : List UInt8)
  | chunk (data : List UInt8)
  | pointer (repr : List UInt8)
  | frame (data : List UInt8)
  | uuid (data : List UInt8)
  | msg (msg : Zmsg)
  deriving DecidableEq

/-- The state of `zsock_brecv`: its place in the data frame, the cache, the frames that follow, and
the flag of the last one. -/
structure Reader where
  needle : Nat
  cache : Cache
  cacheUsed : Nat
  more : Bool
  parts : List (List UInt8 × Bool)

def Cache.write (cache : Cache) (offset : Nat) (bs : List UInt8) : Except Fault Cache :=
  if offset + bs.length ≤ cache.data.length then
    .ok { cache with data := splice cache.data offset bs }
  else .error (.outOfBounds offset)

def Cache.expand (junk : Nat → UInt8) (cache : Cache) (need : Nat) : Cache :=
  if cache.data.length < need then
    { generation := cache.generation + 1
      data := cache.data ++ (List.range' cache.data.length cache.data.length).map junk }
  else cache

def unlessMalformed {α β : Type} (read : Except Fault (Option α))
    (next : α → Except Fault (Option β)) : Except Fault (Option β) :=
  read >>= fun
    | none => .ok none
    | some a => next a

def take (b : Block) (ceiling needle size : Nat) : Except Fault (Option (List UInt8 × Nat)) :=
  if ceiling < ptrAdd needle size then .ok none
  else do
    let bs ← load b needle size
    pure (some (bs, ptrAdd needle size))

def getNumber (b : Block) (ceiling needle width : Nat) : Except Fault (Option (Nat × Nat)) :=
  unlessMalformed (take b ceiling needle width) fun p => .ok (some (ofBytes p.1, p.2))

/-- The rest of `'S'` and `'c'` behind the length, within the limit on allocations. -/
def takeLimited (b : Block) (ceiling needle size : Nat) :
    Except Fault (Option (List UInt8 × Nat)) :=
  if maxAllocSize < size then .ok none else take b ceiling needle size

def zmsgRecv : Zmsg → List (List UInt8 × Bool) → Except Fault (Zmsg × List (List UInt8 × Bool))
  | _, [] => .error .endlessLoop
  | self, (frame, more) :: parts =>
    if more then zmsgRecv (self.append frame) parts else .ok (self.append frame, parts)

/-- One element of the picture; `none` for `malformed`. -/
def get (junk : Nat → UInt8) (b : Block) (ceiling : Nat) (last : Bool) (s : Reader) :
    Element → Except Fault (Option (Output × Reader))
  | .number1 => unlessMalformed (getNumber b ceiling s.needle 1) fun (n, needle) =>
      .ok (some (.number1 (UInt8.ofNat n), { s with needle := needle }))
  | .number2 => unlessMalformed (getNumber b ceiling s.needle 2) fun (n, needle) =>
      .ok (some (.number2 (UInt16.ofNat n), { s with needle := needle }))
  | .number4 => unlessMalformed (getNumber b ceiling s.needle 4) fun (n, needle) =>
      .ok (some (.number4 (UInt32.ofNat n), { s with needle := needle }))
  | .number8 => unlessMalformed (getNumber b ceiling s.needle 8) fun (n, needle) =>
      .ok (some (.number8 (UInt64.ofNat n), { s with needle := needle }))
  -- no check against the ceiling here
  | .pointer => do
      let repr ← load b s.needle 8
      pure (some (.pointer repr, { s with needle := ptrAdd s.needle 8 }))
  | .string => unlessMalformed (getNumber b ceiling s.needle 1) fun (stringSize, needle) =>
      unlessMalformed (take b ceiling needle stringSize) fun (string, needle) => do
        let end_ := (s.cacheUsed + stringSize) % 2 ^ 32
        let cache ← (s.cache.expand junk end_).write s.cacheUsed string
        let cache ← cache.write end_ [0]
        pure (some (.string cache.generation s.cacheUsed,
          { s with needle := needle, cache := cache, cacheUsed := (end_ + 1) % 2 ^ 32 }))
  | .longstr => unlessMalformed (getNumber b ceiling s.needle 4) fun (stringSize, needle) =>
      unlessMalformed (takeLimited b ceiling needle stringSize) fun (string, needle) =>
        .ok (some (.longstr (string ++ [0]), { s with needle := needle }))
  | .chunk => unlessMalformed (getNumber b ceiling s.needle 4) fun (chunkSize, needle) =>
      unlessMalformed (takeLimited b ceiling needle chunkSize) fun (data, needle) =>
        .ok (some (.chunk data, { s with needle := needle }))
  | .uuid => unlessMalformed (takeLimited b ceiling s.needle 16) fun (data, needle) =>
      .ok (some (.uuid data, { s with needle := needle }))
  | .frame =>
      if s.more then
        match s.parts with
        | [] => .error .endlessLoop
        | (frame, more) :: parts => .ok (some (.frame frame, { s with more := more, parts := parts }))
      else .ok none
  | .msg =>
      if last then
        if s.more then do
          let (msg, parts) ← zmsgRecv Zmsg.new s.parts
          pure (some (.msg msg, { s with more := false, parts := parts }))
        else .ok none
      else .error .assertion

/-- The loop of `zsock_brecv`: return code, outputs and the state it leaves. -/
def getAll (junk : Nat → UInt8) (b : Block) (ceiling : Nat) :
    List Char → Reader → List Output → Except Fault (Int × List Output × Reader)
  | [], s, outputs => .ok (0, outputs, s)
  | c :: picture, s, outputs =>
    match Element.ofChar c with
    | none => .error .assertion
    | some e => do
      match ← get junk b ceiling picture.isEmpty s e with
      | none => .ok (-1, outputs, s)
      | some (output, s) => getAll junk b ceiling picture s (outputs ++ [output])

/-- `zsock_brecv` once the data frame `b` is there, with the given cache. -/
def brecv (junk : Nat → UInt8) (cache : Option Cache) (picture : List Char) (b : Block)
    (more : Bool) (parts : List (List UInt8 × Bool)) : Except Fault (Int × List Output × Reader) :=
  let cache := cache.getD { generation := 0, data := (List.range 512).map junk }
  getAll junk b (ptrAdd b.base b.data.length) picture
    { needle := b.base, cache := cache, cacheUsed := 0, more := more, parts := parts } []

end Zsock

end Czmq
