import Czmq.Fault

/-! The matching of `zhttp_request.c`: one pass checks the url against a pattern, a second one cuts
it into the values of the wildcards. -/

namespace Czmq.Zhttp

def slash : UInt8 := 47
def question : UInt8 := 63
def percentSign : UInt8 := 37
def letterS : UInt8 := 115

structure Request where
  method : List UInt8
  url : List UInt8
  deriving DecidableEq

def inRun (c : UInt8) : Bool := c ≠ slash && c ≠ question && c ≠ 0

def atEnd (request : List UInt8) : Bool := request.head?.all (· = question)

/-- The first pass, from places in the pattern and the url on. The end of a list is the NUL. -/
def firstPass : List UInt8 → List UInt8 → Except Fault Bool
  | [], request => .ok (atEnd request)
  | _ :: _, [] => .ok false
  | m :: ms, r :: rs =>
    if r = question then .ok false
    else if r = slash ∧ m ≠ slash then .ok false
    else if m = percentSign then
      match ms with
      | [] => .error .badArgument
      | c :: ms =>
        if c = percentSign then if c = r then .ok false else firstPass ms rs
        else if c = letterS then firstPass ms ((r :: rs).dropWhile inRun)
        -- the error message takes an argument that is not there
        else .error .badArgument
    else if m ≠ r then .ok false
    else firstPass ms rs

/-- The second pass, from a place in the pattern on. The url changes; the outputs are places in it.
An argument is `false` if it is NULL. -/
def secondPass : List UInt8 → List Bool → List UInt8 → Nat → Except Fault (List UInt8 × List (Option Nat))
  | [], _, url, _ => .ok (url, [])
  | [_], _, url, _ => .ok (url, [])
  | m :: c :: ms, args, url, pos =>
    if m = percentSign ∧ c = percentSign then secondPass ms args url (pos + 1)
    else if m = percentSign ∧ c = letterS then
      let stop := pos + ((url.drop pos).takeWhile inRun).length
      match args with
      | [] => .error .badArgument
      | true :: args => do
        let (url, outputs) ← secondPass ms args (url.set stop 0) stop
        pure (url, some pos :: outputs)
      | false :: args => do
        let (url, outputs) ← secondPass ms args url stop
        pure (url, none :: outputs)
    else secondPass (c :: ms) args url (pos + 1)

def requestMatch (self : Request) (method pattern : List UInt8) (args : List Bool) :
    Except Fault (Bool × Request × List (Option Nat)) :=
  if method ≠ self.method then .ok (false, self, [])
  else do
    let found ← firstPass pattern self.url
    if found then
      let (url, outputs) ← secondPass pattern args self.url 0
      pure (true, { self with url := url }, outputs)
    else pure (false, self, [])

def stringAt (url : List UInt8) (pos : Nat) : List UInt8 := (url.drop pos).takeWhile (· ≠ 0)

inductive Piece where
  | literal (c : { c : UInt8 // c ≠ percentSign ∧ c ≠ 0 })
  | percent
  | wildcard
  deriving DecidableEq

def Piece.text : Piece → List UInt8
  | literal c => [c]
  | percent => [percentSign, percentSign]
  | wildcard => [percentSign, letterS]

def render (pieces : List Piece) : List UInt8 := pieces.flatMap Piece.text

def path (url : List UInt8) : List UInt8 := url.takeWhile (· ≠ question)

/-- The path is the pattern with `%` for each `%%` and the runs for the wildcards. -/
def Reads : List Piece → List UInt8 → List (List UInt8) → Prop
  | [], path, runs => path = [] ∧ runs = []
  | .literal c :: ps, path, runs => ∃ rest, path = c.1 :: rest ∧ Reads ps rest runs
  | .percent :: ps, path, runs => ∃ rest, path = percentSign :: rest ∧ Reads ps rest runs
  | .wildcard :: ps, path, runs =>
    ∃ run rest runs', path = run ++ rest ∧ runs = run :: runs' ∧ run ≠ [] ∧
      (∀ c ∈ run, c ≠ slash ∧ c ≠ question) ∧ (rest = [] ∨ rest.head? = some slash) ∧ Reads ps rest runs'

/-- The runs of the wildcards, and what stands for each `%%`, if the path has the shape of the
pattern with any character but a slash there. -/
def fit : List Piece → List UInt8 → Option (List (List UInt8) × List UInt8)
  | [], [] => some ([], [])
  | .literal c :: ps, x :: rest => if x = c.1 then fit ps rest else none
  | .percent :: ps, x :: rest =>
    if x = slash then none else (fit ps rest).map fun r => (r.1, x :: r.2)
  | .wildcard :: ps, x :: rest =>
    if x = slash then none
    else (fit ps ((x :: rest).dropWhile (· ≠ slash))).map fun r =>
      ((x :: rest).takeWhile (· ≠ slash) :: r.1, r.2)
  | _, _ => none

end Czmq.Zhttp
