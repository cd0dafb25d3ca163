import Czmq.Zconfig.Tree
import Mathlib.Data.List.DropRight

/-! The text form of a tree: one line for each item, indented by its depth. The loader hangs each
item below the last one that is a level higher. -/

namespace Czmq.Zconfig

def space : UInt8 := 32
def newline : UInt8 := 10
def quote : UInt8 := 34
def apost : UInt8 := 39
def hash : UInt8 := 35
def equals : UInt8 := 61

structure Chunk where
  data : List UInt8
  maxSize : Nat

def Chunk.append (self : Chunk) (bytes : List UInt8) : Chunk :=
  { self with data := self.data ++ bytes.take (self.maxSize - self.data.length) }

def addInt (a b : Nat) : Except Fault Nat :=
  if a + b ≤ intMax then .ok (a + b) else .error .overflow

def configPrintf (arg : Option Chunk) (text : List UInt8) : Except Fault (Nat × Option Chunk) := do
  let string ← zsysVprintf text
  pure (string.length, arg.map (·.append string))

def printOne (s : Nat × Option Chunk) (text : List UInt8) : Except Fault (Nat × Option Chunk) := do
  let (size, arg) ← configPrintf s.2 text
  let size ← addInt s.1 size
  pure (size, arg)

def commentLine (comment : List UInt8) : List UInt8 := hash :: comment ++ [newline]

def unnamed : List UInt8 := [40, 85, 110, 110, 97, 109, 101, 100, 41]

def valuePart : Option (List UInt8) → List UInt8
  | some value => [space, equals, space, quote] ++ value ++ [quote]
  | none => []

def itemBody (self : Property) (width : Nat) : List UInt8 :=
  List.replicate width space ++ (self.name.getD unnamed ++ valuePart self.value)

def configSave (self : Property) (arg : Option Chunk) (level : Nat) :
    Except Fault (Nat × Option Chunk) := do
  let s ← match self.comments with
    | some comments => (comments.map commentLine ++ [[newline]]).foldlM printOne (0, arg)
    | none => .ok (0, arg)
  if level > 0 then
    if (level - 1) * 4 ≤ intMax then printOne s (itemBody self ((level - 1) * 4) ++ [newline])
    else .error .overflow
  else .ok s

/-- The loop of `s_config_execute` over the items of one level; the call for an item starts from the
size that its handler gives. -/
def configExecute (handler : Property → Option Chunk → Nat → Except Fault (Nat × Option Chunk)) :
    Nat → Zconfig → Nat × Option Chunk → Except Fault (Nat × Option Chunk)
  | _, .nil, s => .ok s
  | level, .node a child next, s => do
    let own ← handler a s.2 level
    let (rc, arg) ← configExecute handler (level + 1) child own
    let size ← addInt s.1 rc
    configExecute handler level next (size, arg)

def configExecuteRoot (a : Property) (child : Zconfig) (arg : Option Chunk) :
    Except Fault (Nat × Option Chunk) := do
  let own ← configSave a arg 0
  configExecute configSave 1 child own

/-- `zconfig_chunk_save`: one pass for the size, one for the text. -/
def chunkSave (self : Zconfig) : Except Fault Chunk :=
  match self with
  | .nil => .error .assertion
  | .node a child _ => do
    let (size, _) ← configExecuteRoot a child none
    let maxSize ← addInt size 1
    match ← configExecuteRoot a child (some ⟨[], maxSize⟩) with
    | (_, some chunk) => .ok chunk
    | (_, none) => .error .assertion

/-- `zconfig_save`: the bytes written. Their sizes are summed up in an `int`. -/
def save (self : Zconfig) : Except Fault (List UInt8) :=
  match self with
  | .nil => .error .assertion
  | .node a child _ => do
    match ← configExecuteRoot a child (some ⟨[], intMax⟩) with
    | (_, some chunk) => .ok chunk.data
    | (_, none) => .error .assertion

def setComment (self : Zconfig) (text : List UInt8) : Except Fault Zconfig :=
  match self with
  | .nil => .error (.outOfBounds 0)
  | .node a child next => do
    let comment ← zsysVprintf text
    pure (.node { a with comments := some (a.comments.getD [] ++ [comment]) } child next)

def isSpace (c : UInt8) : Bool := c == 32 || (9 ≤ c && c ≤ 13)

def isAlnum (c : UInt8) : Bool :=
  (48 ≤ c && c ≤ 57) || (65 ≤ c && c ≤ 90) || (97 ≤ c && c ≤ 122)

def isNamechar (c : UInt8) : Bool :=
  isAlnum c || c == 36 || c == 45 || c == 95 || c == 64 || c == 46 || c == 38 || c == 43 || c == 47

def collectLevel (line : List UInt8) : Option (Nat × List UInt8) :=
  let width := (line.takeWhile (· == space)).length
  let level := width / 4
  if level * 4 ≠ width then none
  else if level > intMax then none
  else some (level, line.dropWhile (· == space))

def collectName (line : List UInt8) : Option (List UInt8 × List UInt8) :=
  let name := line.takeWhile isNamechar
  if name ≠ [] ∧ (name.head? = some slash ∨ name.getLast? = some slash) then none
  else some (name, line.dropWhile isNamechar)

def verifyEoln (line : List UInt8) : Bool :=
  match line.dropWhile isSpace with
  | [] => true
  | c :: _ => c == hash

/-- An unquoted value, up to a comment and the blanks before it. If it is empty, these blanks are
behind the equals sign, and the comment stays. -/
def unquoted (blanks line : List UInt8) : List UInt8 :=
  if hash ∈ line then
    let text := line.takeWhile (· != hash)
    if text = [] ∧ blanks ≠ [] then line else text.rdropWhile isSpace
  else line

def quoted (mark : UInt8) (line : List UInt8) : Option (List UInt8 × List UInt8) :=
  match line.dropWhile (· != mark) with
  | [] => none
  | _ :: rest => some (line.takeWhile (· != mark), rest)

def collectValue (line : List UInt8) : Option (List UInt8) :=
  match line.dropWhile isSpace with
  | [] => some []
  | c :: line =>
    if c = equals then
      let blanks := line.takeWhile isSpace
      match line.dropWhile isSpace with
      | [] => some []
      | c :: line =>
        if c = quote ∨ c = apost then do
          let (value, rest) ← quoted c line
          if verifyEoln rest then some value else none
        else some (unquoted blanks (c :: line))
    else if verifyEoln (c :: line) then some [] else none

def collectItem (line : List UInt8) : Option (Option (Nat × Property)) := do
  let (level, line) ← collectLevel line
  let (name, line) ← collectName line
  if name ≠ [] then do
    let value ← collectValue line
    some (some (level, ⟨some name, some value, none⟩))
  else if verifyEoln line then some none else none

/-- The line up to the first NUL, without the blanks at its end. -/
def trimLine (line : List UInt8) : List UInt8 := (Bytes.cstr line).rdropWhile isSpace

def loadLine (s : Property × Zconfig) (line : List UInt8) : Option (Property × Zconfig) := do
  let line := trimLine line
  let root := if line.head? = some hash then
    { s.1 with comments := some (s.1.comments.getD [] ++ [line.tail]) } else s.1
  match ← collectItem line with
  | some (level, item) => do
    let child ← Forest.grow level item s.2
    some (root, child)
  | none => some (root, s.2)

/-- The lines that `zconfig_chunk_load` cuts off at each newline. -/
def lines : List UInt8 → List (List UInt8)
  | [] => []
  | c :: data =>
    if c = newline then [] :: lines data
    else match lines data with
      | [] => [[c]]
      | line :: rest => (c :: line) :: rest

def chunkLoad (data : List UInt8) : Option Zconfig := do
  let (a, child) ← (lines data).foldlM loadLine (new (some [114, 111, 111, 116]), .nil)
  some (.node a child .nil)

end Czmq.Zconfig
