import Czmq.Zlistx.Sorted
import Czmq.Zsys

/-! The trie of `ztrie.c`: its nodes, the scanner, and the insertion, the removal and the match of a
path. -/

namespace Czmq

namespace Ztrie

inductive TokenType where
  | string
  | regex
  | param
  | asterisk
  deriving DecidableEq

def TokenType.code : TokenType → Int
  | .string => 0
  | .regex => 1
  | .param => 2
  | .asterisk => 3

/-- `ztrie_node_t`. The compiled expression is that of the token; the children are in the order of
their list. -/
structure Node where
  token : List UInt8
  tokenType : TokenType
  tokenLen : Int
  pathLen : Nat
  endpoint : Bool
  parameterNames : List (List UInt8)
  parameterValues : List (Option (List UInt8))
  asteriskMatch : Option (List UInt8)
  data : Option Nat
  destroys : Bool
  children : List Nat
  parent : Option Nat
  deriving DecidableEq

/-- `zrex_t` as the trie uses it: the bracket pairs of an expression, and its hits in a text, none
if it does not match. -/
structure Zrex where
  caps : List UInt8 → Nat
  hits : List UInt8 → List UInt8 → List (List UInt8)

def maxHits : Nat := 100

end Ztrie

/-- `ztrie_t` with the nodes in memory, the next address, and the data destroyed. -/
structure Ztrie where
  delimiter : UInt8
  nodes : Nat → Option Ztrie.Node
  fresh : Nat
  matched : Option Nat
  params : List (List UInt8)
  destroyed : List Nat

namespace Ztrie

def root : Nat := 0

def slash : UInt8 := 47
def star : UInt8 := 42
def openBrace : UInt8 := 123
def closeBrace : UInt8 := 125
def colon : UInt8 := 58

/-- `s_strndup`, which drops the last character when it meets the end of the string. -/
def strndup (s : List UInt8) (size : Nat) : Except Fault (List UInt8) :=
  if s.length < size then
    if s = [] then .error (.outOfBounds 0) else .ok (s.take (s.length - 1))
  else .ok (s.take size)

def minLen (x y : Int) : Int := y + if x - y < 0 then x - y else 0

def strncmpEq (a b : List UInt8) (n : Nat) : Bool := a.take n == b.take n

def nodeCompare (node1 node2 : Node) : Int :=
  let same := node1.tokenType.code - node2.tokenType.code
  if same = 0 then
    if node1.token.head? = node2.token.head? ∧ node1.tokenLen = node2.tokenLen ∧
        strncmpEq node1.token node2.token (Bytes.sizeT (minLen node1.tokenLen node2.tokenLen)) then 0
    else -1
  else same

def node (t : Ztrie) (id : Nat) : Except Fault Node :=
  match t.nodes id with
  | some node => .ok node
  | none => .error .useAfterFree

def setNode (t : Ztrie) (id : Nat) (node : Node) : Ztrie :=
  { t with nodes := Function.update t.nodes id (some node) }

def nodeInit (token : List UInt8) (tokenLen : Int) (paramKeys : List (List UInt8))
    (tokenType : TokenType) : Node where
  token := token
  tokenType := tokenType
  tokenLen := tokenLen
  pathLen := token.length + 1
  endpoint := false
  parameterNames := paramKeys
  parameterValues := paramKeys.map fun _ => none
  asteriskMatch := none
  data := none
  destroys := false
  children := []
  parent := none

def new (delimiter : UInt8) : Ztrie where
  delimiter := if delimiter = 0 then slash else delimiter
  nodes := Function.update (fun _ => none) root (some (nodeInit [] 0 [] .string))
  fresh := root + 1
  matched := none
  params := []
  destroyed := []

def Node.updateParam (self : Node) (pos : Nat) (value : List UInt8) : Except Fault Node :=
  if pos - 1 < self.parameterValues.length then
    .ok { self with parameterValues := self.parameterValues.set (pos - 1) (some value) }
  else .error (.outOfBounds (pos - 1))

def Node.capture (self : Node) : List (List UInt8) → Except Fault Node
  | [hit] => self.updateParam 1 hit
  | hits => (hits.tail.zipIdx 1).foldlM (fun self x => self.updateParam x.2 x.1) self

section
variable (zrex : Zrex) (shrink : Nat → Nat) (rounds : Nat)

def sortChildren (t : Ztrie) (ids : List Nat) : Except Fault (List Nat) := do
  let children ← ids.mapM fun id => do
    let node ← t.node id
    pure (id, node)
  let sorted ← Zlistx.sortedItems (fun a b => nodeCompare a.2 b.2) shrink rounds children
  pure (sorted.map Prod.fst)

def nodeNew (t : Ztrie) (parent : Nat) (token : List UInt8) (tokenLen : Int)
    (tokenType : TokenType) : Except Fault (Nat × Ztrie) := do
  let token ← strndup token (Bytes.sizeT tokenLen)
  if (tokenType = .regex ∨ tokenType = .param) ∧ maxHits ≤ zrex.caps token then .error .assertion
  else
    let above ← t.node parent
    let self := nodeInit token tokenLen t.params tokenType
    let self := { self with pathLen := above.pathLen + self.pathLen, parent := some parent }
    let id := t.fresh
    let t := { t.setNode id self with fresh := t.fresh + 1 }
    let children ← sortChildren shrink rounds t (above.children ++ [id])
    pure (id, t.setNode parent { above with children := children })

def compareToken (t : Ztrie) (token : List UInt8) (len : Int) : List Nat → Except Fault (Option Nat)
  | [] => .ok none
  | id :: ids => do
    let child ← t.node id
    if child.tokenLen = len ∧
        strncmpEq child.token token (Bytes.sizeT (minLen child.tokenLen len)) then pure (some id)
    else compareToken t token len ids

def childMatches (t : Ztrie) (token : List UInt8) (len : Int) (id : Nat) (child : Node) :
    Except Fault (Option Ztrie) :=
  match child.tokenType with
  | .string =>
    if token.head? = child.token.head? ∧ child.tokenLen = len ∧
        strncmpEq child.token token (Bytes.sizeT (minLen child.tokenLen len)) then pure (some t)
    else pure none
  | .asterisk => pure (some (t.setNode id { child with asteriskMatch := some token }))
  | .regex => do
    let text ← strndup token (Bytes.sizeT len)
    if zrex.hits child.token text = [] then pure none else pure (some t)
  | .param => do
    let text ← strndup token (Bytes.sizeT len)
    if zrex.hits child.token text = [] then pure none
    else
      let child ← child.capture (zrex.hits child.token text)
      pure (some (t.setNode id child))

def matchesToken (t : Ztrie) (token : List UInt8) (len : Int) :
    List Nat → Except Fault (Option Nat × Ztrie)
  | [] => .ok (none, t)
  | id :: ids => do
    let child ← t.node id
    let taken ← childMatches zrex t token len id child
    match taken with
    | some t => pure (some id, t)
    | none => matchesToken t token len ids

inductive Mode where
  | insert
  | lookup
  | matching
  deriving DecidableEq

/-- The variables of `s_ztrie_parse_path`, with positions in the path. -/
structure Scan where
  needle : Nat
  state : Nat
  beginToken : Nat
  beginRegex : Option Nat
  parent : Nat
  deriving DecidableEq

def findToken (mode : Mode) (t : Ztrie) (token : List UInt8) (len : Int) (ids : List Nat) :
    Except Fault (Option Nat × Ztrie) :=
  if mode = .matching then matchesToken zrex t token len ids
  else do
    let found ← compareToken t token len ids
    pure (found, t)

abbrev Scanned := (Ztrie × Scan) ⊕ (Option Nat × Ztrie)

def finish (mode : Mode) (t : Ztrie) (parent : Nat) : Except Fault Scanned := do
  let node ← t.node parent
  if mode = .matching ∧ node.endpoint = false then pure (.inr (none, t))
  else pure (.inr (some parent, t))

def Scan.matchToken (s : Scan) : Nat := s.beginRegex.getD s.beginToken

def Scan.matchTokenLen (s : Scan) : Int :=
  Bytes.int32 (s.needle - s.matchToken) - if s.beginRegex.isSome then 1 else 0

def Scan.matchType (s : Scan) (params : List (List UInt8)) : TokenType :=
  if 0 < params.length then .param else if s.beginRegex.isSome then .regex else .string

def tokenAt (t : Ztrie) (path : List UInt8) (stop : Nat) (s : Scan) (above : Node) :
    Except Fault (Option (TokenType × Nat × Int)) :=
  if s.matchTokenLen < -(intMax : Int) - 1 then .error .overflow
  else if s.matchTokenLen = 0 then pure none
  else if s.needle = stop ∧ path[s.matchToken]? = some star then
    if above.children = [] then pure (some (.asterisk, s.needle - 1, 1)) else pure none
  else pure (some (s.matchType t.params, s.matchToken, s.matchTokenLen))

/-- Nothing may be added below an asterisk, or beside an asterisk alone. -/
def closed (t : Ztrie) (above : Node) : Except Fault Bool := do
  if above.tokenType = .asterisk then pure true
  else
    match above.children with
    | [id] => do
      let child ← t.node id
      pure (child.tokenType = .asterisk)
    | _ => pure false

def nextToken (t : Ztrie) (s : Scan) (parent : Nat) : Scanned :=
  .inl ({ t with params := [] },
    { s with beginRegex := none, beginToken := s.needle + 1, parent := parent, needle := s.needle + 1 })

def takeChild (mode : Mode) (t : Ztrie) (s : Scan) (id : Nat) : Except Fault Scanned := do
  let child ← t.node id
  if child.tokenType = .asterisk then finish mode t id else pure (nextToken t s id)

def mismatch (mode : Mode) (t : Ztrie) (s : Scan) (above : Node) (token : List UInt8) (len : Int)
    (tokenType : TokenType) : Except Fault Scanned :=
  if mode = .insert then do
    let closed ← closed t above
    if closed then pure (.inr (none, t))
    else
      let (id, t) ← nodeNew zrex shrink rounds t s.parent token len tokenType
      pure (nextToken t s id)
  else pure (.inr (none, t))

def endToken (mode : Mode) (path : List UInt8) (stop : Nat) (t : Ztrie) (s : Scan) :
    Except Fault Scanned := do
  let above ← t.node s.parent
  let token ← tokenAt t path stop s above
  match token with
  | none => pure (.inr (none, t))
  | some (matchType, matchToken, matchTokenLen) =>
    let found ← findToken zrex mode t (path.drop matchToken) matchTokenLen above.children
    match found with
    | (some id, t) => takeChild mode t s id
    | (none, t) => mismatch zrex shrink rounds mode t s above (path.drop matchToken) matchTokenLen matchType

def parseRound (mode : Mode) (path : List UInt8) (stop : Nat) :
    Ztrie × Scan → Except Fault Scanned
  | (t, s) =>
    let next : Scan := { s with needle := s.needle + 1 }
    if s.needle < stop + 1 then
      if path[s.needle]? = some t.delimiter ∨ s.needle = stop then
        if s.state = 0 then
          .ok (.inl (t, { next with
            beginToken := s.needle + 1, state := if mode = .matching then 1 else 2 }))
        else if s.state < 3 then endToken zrex shrink rounds mode path stop t s
        else .ok (.inl (t, next))
      else if s.state = 2 ∧ path[s.needle]? = some openBrace then
        .ok (.inl (t, { next with beginRegex := some (s.needle + 1), state := 3 }))
      else if s.state = 3 ∧ path[s.needle]? = some colon then do
        let beginRegex := s.beginRegex.getD 0
        let name ← strndup (path.drop beginRegex) (s.needle - beginRegex)
        pure (.inl ({ t with params := t.params ++ [name] },
          { next with beginRegex := some (s.needle + 1) }))
      else if s.state = 3 ∧ path[s.needle]? = some closeBrace then
        .ok (.inl (t, { next with state := 2 }))
      else .ok (.inl (t, next))
    else finish mode t s.parent

def parsePath (mode : Mode) (t : Ztrie) (path : List UInt8) : Except Fault (Option Nat × Ztrie) :=
  match path.getLast? with
  | none => .error (.outOfBounds 0)
  | some last =>
    let stop := if last = t.delimiter then path.length - 1 else path.length
    Loop.untilDone .endlessLoop (parseRound zrex shrink rounds mode path stop) (path.length + 2)
      ({ t with params := [] }, ⟨0, 0, 0, none, root⟩)

def insertRoute (t : Ztrie) (path : List UInt8) (data : Option Nat) (destroys : Bool) :
    Except Fault (Int × Ztrie) := do
  let (found, t) ← parsePath zrex shrink rounds .insert t path
  match found with
  | none => pure (-1, t)
  | some id =>
    let node ← t.node id
    if node.endpoint then pure (-1, t)
    else pure (0, t.setNode id { node with endpoint := true, data := data, destroys := destroys })

def destroyData (t : Ztrie) (node : Node) : Ztrie :=
  { t with destroyed := t.destroyed ++ if node.destroys then node.data.toList else [] }

def findChild (t : Ztrie) (node : Node) : List Nat → Except Fault (Option Nat)
  | [] => .ok none
  | id :: ids => do
    let child ← t.node id
    if nodeCompare child node = 0 then pure (some id) else findChild t node ids

def removeRoute (t : Ztrie) (path : List UInt8) : Except Fault (Int × Ztrie) := do
  let (found, t) ← parsePath zrex shrink rounds .lookup t path
  match found with
  | none => pure (-1, t)
  | some id =>
    let node ← t.node id
    if node.endpoint then
      if 0 < node.children.length then
        let cleared := if node.destroys then none else node.data
        pure (0, (t.setNode id { node with endpoint := false, data := cleared }).destroyData node)
      else
        match node.parent with
        | none => .error (.outOfBounds 0)
        | some parent =>
          let above ← t.node parent
          let handle ← findChild t node above.children
          match handle with
          | none => .error .assertion
          | some handle =>
            let t := t.setNode parent { above with children := above.children.erase handle }
            pure (0, { t with nodes := Function.update t.nodes id none }.destroyData node)
    else pure (-1, t)

def «matches» (t : Ztrie) (path : List UInt8) : Except Fault (Bool × Ztrie) := do
  let (found, t) ← parsePath zrex shrink rounds .matching t path
  pure (found.isSome, { t with matched := found })

end

end Ztrie

end Czmq
