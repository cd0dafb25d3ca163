import Czmq.Fault
import Czmq.Base.Loop
import Mathlib.Data.List.DropRight

/-! The armour of `zarmour.c`: base64, base32 and base16 text with padding and line breaks, and its
decoder. The Z85 mode only calls the messaging library and is not modelled. -/

namespace Czmq

open Bytes

/-- `zmalloc`: zeroed memory, or `abort`. No object is as large as `PTRDIFF_MAX`. -/
def zmalloc (size : Nat) : Except Fault (List UInt8) :=
  if size < 2 ^ 63 then .ok (List.replicate size 0) else .error .outOfMemory

def store (buffer written : List UInt8) : Except Fault (List UInt8) :=
  if written.length ≤ buffer.length then .ok (splice buffer 0 written)
  else .error (.outOfBounds buffer.length)

def strchr (s : List UInt8) (c : UInt8) : Option Nat := (s ++ [0]).idxOf? c

def strstr (needle : List UInt8) : List UInt8 → Option (List UInt8)
  | [] => if needle = [] then some [] else none
  | c :: rest => if needle <+: c :: rest then some (c :: rest) else strstr needle rest

def ascii (s : List Char) : List UInt8 := s.map fun c => UInt8.ofNat c.toNat

namespace Zarmour

inductive Mode where
  | base64Std | base64Url | base32Std | base32Hex | base16
  deriving DecidableEq

def base64Alphabet : List UInt8 :=
  ascii
    ['A', 'B', 'C', 'D', 'E', 'F', 'G', 'H', 'I', 'J', 'K', 'L', 'M', 'N', 'O', 'P', 'Q', 'R', 'S',
      'T', 'U', 'V', 'W', 'X', 'Y', 'Z', 'a', 'b', 'c', 'd', 'e', 'f', 'g', 'h', 'i', 'j', 'k',
      'l', 'm', 'n', 'o', 'p', 'q', 'r', 's', 't', 'u', 'v', 'w', 'x', 'y', 'z', '0', '1', '2',
      '3', '4', '5', '6', '7', '8', '9', '+', '/']

def base64urlAlphabet : List UInt8 :=
  ascii
    ['A', 'B', 'C', 'D', 'E', 'F', 'G', 'H', 'I', 'J', 'K', 'L', 'M', 'N', 'O', 'P', 'Q', 'R', 'S',
      'T', 'U', 'V', 'W', 'X', 'Y', 'Z', 'a', 'b', 'c', 'd', 'e', 'f', 'g', 'h', 'i', 'j', 'k',
      'l', 'm', 'n', 'o', 'p', 'q', 'r', 's', 't', 'u', 'v', 'w', 'x', 'y', 'z', '0', '1', '2',
      '3', '4', '5', '6', '7', '8', '9', '-', '_']

def base32Alphabet : List UInt8 :=
  ascii
    ['A', 'B', 'C', 'D', 'E', 'F', 'G', 'H', 'I', 'J', 'K', 'L', 'M', 'N', 'O', 'P', 'Q', 'R', 'S',
      'T', 'U', 'V', 'W', 'X', 'Y', 'Z', '2', '3', '4', '5', '6', '7']

def base32hexAlphabet : List UInt8 :=
  ascii
    ['0', '1', '2', '3', '4', '5', '6', '7', '8', '9', 'A', 'B', 'C', 'D', 'E', 'F', 'G', 'H', 'I',
      'J', 'K', 'L', 'M', 'N', 'O', 'P', 'Q', 'R', 'S', 'T', 'U', 'V']

def base16Alphabet : List UInt8 :=
  ascii
    ['0', '1', '2', '3', '4', '5', '6', '7', '8', '9', 'A', 'B', 'C', 'D', 'E', 'F']

def noConvert (c : UInt8) : UInt8 := c

def upperCase (c : UInt8) : UInt8 := c &&& (if c &&& 0x40 ≠ 0 then 0xdf else 0xff)

def letter (alphabet : List UInt8) (d : UInt8) : Except Fault UInt8 :=
  match (alphabet ++ [0])[d.toNat]? with
  | some c => .ok c
  | none => .error (.outOfBounds d.toNat)

/-- The common body of the encoders: the digits in a buffer for `strChars` characters and the
terminator, with padding if `fill` is set. -/
def encodeDigits (alphabet digits : List UInt8) (strChars : Nat) (fill : Bool) (padChar : UInt8) :
    Except Fault (List UInt8) := do
  let str ← zmalloc (strChars + 1)
  let enc ← digits.mapM (letter alphabet)
  let padding := if fill then List.replicate (strChars - enc.length) padChar else []
  store str (enc ++ padding ++ [0])

def base64Digits : List UInt8 → List UInt8
  | a :: b :: c :: data =>
    a >>> 2 :: (a <<< 4 &&& (0x30 : UInt8) ||| b >>> 4) ::
      (b <<< 2 &&& (0x3c : UInt8) ||| c >>> 6) :: (c &&& 0x3f) :: base64Digits data
  | [a, b] => [a >>> 2, a <<< 4 &&& (0x30 : UInt8) ||| b >>> 4, b <<< 2 &&& (0x3c : UInt8)]
  | [a] => [a >>> 2, a <<< 4 &&& (0x30 : UInt8)]
  | [] => []

def base64ExtraChars (length : Nat) : Nat := if length % 3 ≠ 0 then length % 3 + 1 else 0

def base64PadChars (pad : Bool) (length : Nat) : Nat :=
  if pad ∧ base64ExtraChars length ≠ 0 then 4 - base64ExtraChars length else 0

def base64Encode (data alphabet : List UInt8) (pad : Bool) (padChar : UInt8) :
    Except Fault (List UInt8) :=
  let length := data.length
  let strChars := 4 * (length / 3) + base64ExtraChars length + base64PadChars pad length
  encodeDigits alphabet (base64Digits data) strChars pad padChar

def base32Digits : List UInt8 → List UInt8
  | a :: b :: c :: d :: e :: data =>
    a >>> 3 :: (a <<< 2 &&& (0x1c : UInt8) ||| b >>> 6) :: (b >>> 1 &&& (0x1f : UInt8)) ::
      (b <<< 4 &&& (0x10 : UInt8) ||| c >>> 4) :: (c <<< 1 &&& (0x1e : UInt8) ||| d >>> 7) ::
      (d >>> 2 &&& (0x1f : UInt8)) :: (d <<< 3 &&& (0x18 : UInt8) ||| e >>> 5) :: (e &&& 0x1f) ::
      base32Digits data
  | [a, b, c, d] =>
    [a >>> 3, a <<< 2 &&& (0x1c : UInt8) ||| b >>> 6, b >>> 1 &&& (0x1f : UInt8),
      b <<< 4 &&& (0x10 : UInt8) ||| c >>> 4, c <<< 1 &&& (0x1e : UInt8) ||| d >>> 7,
      d >>> 2 &&& (0x1f : UInt8), d <<< 3 &&& (0x18 : UInt8)]
  | [a, b, c] =>
    [a >>> 3, a <<< 2 &&& (0x1c : UInt8) ||| b >>> 6, b >>> 1 &&& (0x1f : UInt8),
      b <<< 4 &&& (0x10 : UInt8) ||| c >>> 4, c <<< 1 &&& (0x1e : UInt8)]
  | [a, b] =>
    [a >>> 3, a <<< 2 &&& (0x1c : UInt8) ||| b >>> 6, b >>> 1 &&& (0x1f : UInt8),
      b <<< 4 &&& (0x10 : UInt8)]
  | [a] => [a >>> 3, a <<< 2 &&& (0x1c : UInt8)]
  | [] => []

def base32ExtraChars (length : Nat) : Nat :=
  match length % 5 with
  | 1 => 2
  | 2 => 4
  | 3 => 5
  | 4 => 7
  | _ => 0

def base32PadChars (pad : Bool) (length : Nat) : Nat :=
  if pad ∧ base32ExtraChars length ≠ 0 then 8 - base32ExtraChars length else 0

-- Here the loop that pads does not test `pad`.
def base32Encode (data alphabet : List UInt8) (pad : Bool) (padChar : UInt8) :
    Except Fault (List UInt8) :=
  let length := data.length
  let strChars := 8 * (length / 5) + base32ExtraChars length + base32PadChars pad length
  encodeDigits alphabet (base32Digits data) strChars true padChar

def base16Digits : List UInt8 → List UInt8
  | a :: data => a >>> 4 :: (a &&& 0x0f) :: base16Digits data
  | [] => []

def base16Encode (data alphabet : List UInt8) : Except Fault (List UInt8) :=
  encodeDigits alphabet (base16Digits data) (2 * data.length) false 0

/-! ## Decoders -/

/-- `_NEXT_CHAR`: the index of the next character of the alphabet, `0xff` past the ceiling, and what
follows. -/
def nextChar (alphabet : List UInt8) (convert : UInt8 → UInt8) : List UInt8 → UInt8 × List UInt8
  | [] => (0xff, [])
  | c :: needle =>
    match strchr alphabet (convert c) with
    | some i => (UInt8.ofNat i, needle)
    | none => nextChar alphabet convert needle

/-- `while (needle < ceiling)`, with a round that writes bytes and moves `needle`. -/
def decodeLoop (round : List UInt8 → List UInt8 × List UInt8) (text : List UInt8) :
    Except Fault (List UInt8) :=
  let body := fun (needle, written) =>
    let (out, needle) := round needle
    (needle, written ++ out)
  match Loop.whileLoop (fun s => !s.1.isEmpty) body text.length (text, []) with
  | some (_, written) => .ok written
  | none => .error .endlessLoop

def strip (alphabet : List UInt8) (convert : UInt8 → UInt8) (text : List UInt8) : List UInt8 :=
  text.rdropWhile fun c => (strchr alphabet (convert c)).isNone

/-- The common end of the decoders: the buffer for `length` characters, and the loop that fills it.
-/
def decodeText (size : Nat → Except Fault Nat) (round : List UInt8 → List UInt8 × List UInt8)
    (linebreakchars : Nat) (text : List UInt8) : Except Fault (List UInt8) := do
  let length := sizeT ((text.length : Int) - linebreakchars)
  let size ← size length
  let bytes ← zmalloc size
  let written ← decodeLoop round text
  store bytes (written ++ [0])

def emit (indices : List UInt8) (value : UInt8) : List UInt8 :=
  if 0xff ∈ indices then [] else [value]

def base64Size (length : Nat) : Except Fault Nat :=
  .ok (3 * (length / 4) + (if length % 4 ≠ 0 then length % 4 - 1 else 0) + 1)

-- Each `cᵢ` is the index `iᵢ` of the source and where `needle` is after it.
def base64Round (alphabet needle : List UInt8) : List UInt8 × List UInt8 :=
  let c1 := nextChar alphabet noConvert needle
  let c2 := nextChar alphabet noConvert c1.2
  let c3 := nextChar alphabet noConvert c2.2
  let c4 := nextChar alphabet noConvert c3.2
  (emit [c1.1, c2.1] (c1.1 <<< 2 ||| c2.1 >>> 4) ++ emit [c2.1, c3.1] (c2.1 <<< 4 ||| c3.1 >>> 2) ++
    emit [c3.1, c4.1] (c3.1 <<< 6 ||| c4.1), c4.2)

def base64Decode (data alphabet : List UInt8) (linebreakchars : Nat) : Except Fault (List UInt8) :=
  decodeText base64Size (base64Round alphabet) linebreakchars (strip alphabet noConvert data)

def base32Size (length : Nat) : Except Fault Nat := do
  let extraBytes ← match length % 8 with
    | 0 => .ok 0
    | 2 => .ok 1
    | 4 => .ok 2
    | 5 => .ok 3
    | 7 => .ok 4
    | _ => .error .assertion
  .ok (5 * (length / 8) + extraBytes + 1)

def base32Round (alphabet needle : List UInt8) : List UInt8 × List UInt8 :=
  let c1 := nextChar alphabet upperCase needle
  let c2 := nextChar alphabet upperCase c1.2
  let c3 := nextChar alphabet upperCase c2.2
  let c4 := nextChar alphabet upperCase c3.2
  let c5 := nextChar alphabet upperCase c4.2
  let c6 := nextChar alphabet upperCase c5.2
  let c7 := nextChar alphabet upperCase c6.2
  let c8 := nextChar alphabet upperCase c7.2
  (emit [c1.1, c2.1] (c1.1 <<< 3 ||| c2.1 >>> 2) ++
    emit [c2.1, c3.1, c4.1] (c2.1 <<< 6 ||| c3.1 <<< 1 ||| c4.1 >>> 4) ++
    emit [c4.1, c5.1] (c4.1 <<< 4 ||| c5.1 >>> 1) ++
    emit [c5.1, c6.1, c7.1] (c5.1 <<< 7 ||| c6.1 <<< 2 ||| c7.1 >>> 3) ++
    emit [c7.1, c8.1] (c7.1 <<< 5 ||| c8.1), c8.2)

def base32Decode (data alphabet : List UInt8) (linebreakchars : Nat) : Except Fault (List UInt8) :=
  decodeText base32Size (base32Round alphabet) linebreakchars (strip alphabet upperCase data)

def base16Size (length : Nat) : Except Fault Nat := .ok (length / 2 + 1)

def base16Round (alphabet needle : List UInt8) : List UInt8 × List UInt8 :=
  let c1 := nextChar alphabet upperCase needle
  let c2 := nextChar alphabet upperCase c1.2
  (emit [c1.1, c2.1] (c1.1 <<< 4 ||| c2.1), c2.2)

-- This decoder strips nothing.
def base16Decode (data alphabet : List UInt8) (linebreakchars : Nat) : Except Fault (List UInt8) :=
  decodeText base16Size (base16Round alphabet) linebreakchars data

end Zarmour

structure Zarmour where
  mode : Zarmour.Mode
  pad : Bool
  padChar : UInt8
  lineBreaks : Bool
  lineLength : Nat
  lineEnd : CString

namespace Zarmour

def newline : CString := ⟨[10], by decide⟩

def new : Zarmour where
  mode := .base64Std
  pad := true
  padChar := 61
  lineBreaks := false
  lineLength := 72
  lineEnd := newline

def encodeMode (self : Zarmour) (data : List UInt8) : Except Fault (List UInt8) :=
  match self.mode with
  | .base64Std => base64Encode data base64Alphabet self.pad self.padChar
  | .base64Url => base64Encode data base64urlAlphabet self.pad self.padChar
  | .base32Std => base32Encode data base32Alphabet self.pad self.padChar
  | .base32Hex => base32Encode data base32hexAlphabet self.pad self.padChar
  | .base16 => base16Encode data base16Alphabet

/-- One round of the copy: `lineLength` characters and then `lineEnd`, unless the text is at its
end. -/
def copyLine (lineLength : Nat) (lineEnd : List UInt8) (s : List UInt8 × List UInt8) :
    List UInt8 × List UInt8 :=
  let rest := s.1.drop lineLength
  (rest, s.2 ++ s.1.take lineLength ++ if rest = [] then [] else lineEnd)

def copyLines (lineLength : Nat) (lineEnd src : List UInt8) : Except Fault (List UInt8) :=
  match Loop.whileLoop (fun s => lineLength ≤ s.1.length) (copyLine lineLength lineEnd)
    src.length (src, []) with
  | some (src, dest) => .ok (dest ++ src)
  | none => .error .endlessLoop

def breakLines (self : Zarmour) (encoded : List UInt8) : Except Fault (List UInt8) := do
  let nbrLines := encoded.length / self.lineLength
  let newLength := (nbrLines * (self.lineLength + self.lineEnd.1.length) +
    encoded.length % self.lineLength) % 2 ^ 64
  let buffer ← zmalloc ((newLength + 1) % 2 ^ 64)
  let dest ← copyLines self.lineLength self.lineEnd.1 encoded
  store buffer (dest ++ [0])

def encode (self : Zarmour) (data : List UInt8) : Except Fault (List UInt8) := do
  let str ← self.encodeMode data
  let encoded := cstr str
  if self.lineBreaks ∧ 0 < self.lineLength ∧ self.lineLength < encoded.length then do
    let str ← self.breakLines encoded
    .ok (cstr str)
  else .ok encoded

def skipLineEnd (lineEnd : List UInt8) (s : List UInt8 × Nat) : List UInt8 × Nat :=
  match strstr lineEnd s.1 with
  | some found => (found.drop lineEnd.length, s.2 + lineEnd.length)
  | none => s

/-- The loop over `strstr` in `zarmour_decode`. An empty `lineEnd` is found again and again. -/
def countLinebreakchars (lineEnd data : List UInt8) : Except Fault Nat :=
  match Loop.whileLoop (fun s => (strstr lineEnd s.1).isSome) (skipLineEnd lineEnd)
    data.length (data, 0) with
  | some (_, count) => .ok count
  | none => .error .endlessLoop

def decode (self : Zarmour) (data : List UInt8) : Except Fault (List UInt8) := do
  let linebreakchars ← countLinebreakchars self.lineEnd.1 data
  match self.mode with
  | .base64Std => base64Decode data base64Alphabet linebreakchars
  | .base64Url => base64Decode data base64urlAlphabet linebreakchars
  | .base32Std => base32Decode data base32Alphabet linebreakchars
  | .base32Hex => base32Decode data base32hexAlphabet linebreakchars
  | .base16 => base16Decode data base16Alphabet linebreakchars

end Zarmour

end Czmq
