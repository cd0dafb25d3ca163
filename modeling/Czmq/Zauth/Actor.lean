import Czmq.Zcertstore.Revocation

/-! The authentication actor of `zauth.c`. Commands on its pipe fill the lists of addresses and name
the file of passwords and the store of certificates, from which ZAP requests are answered. -/

namespace Czmq

open Bytes Zhashx

/-- What the actor sees of its host: the disk, and of a file of passwords its contents, the time of
its last change and whether it is stable. -/
structure Host extends Disk where
  contents : List UInt8 → Option (List UInt8)
  modified : List UInt8 → Int
  stable : List UInt8 → Bool

/-- A table loaded from a file, with the fields of `zhashx_t` for the file. -/
structure Passwords where
  table : Dictionary
  filename : CString
  modified : Int

namespace Passwords

def load (host : Host) (table : Dictionary) (filename : CString) : Except Fault Passwords := do
  let (_, table) ← loadFile table (host.contents filename.1)
  pure ⟨table, filename, host.modified filename.1⟩

/-- The body of the loop in `zhashx_refresh`; `s_item_destroy` alone clears the bucket. -/
def emptyBucket (table : Dictionary) (index : Nat) : Except Fault Dictionary :=
  destroyChain (table.items.getD index []) table

def empty (table : Dictionary) : Except Fault Dictionary :=
  Loop.forUint table.limit .endlessLoop emptyBucket table

def refresh (host : Host) (self : Passwords) : Except Fault Passwords :=
  if self.modified < host.modified self.filename.1 ∧ host.stable self.filename.1 = true then do
    let table ← empty self.table
    load host table self.filename
  else .ok self

end Passwords

structure Zauth where
  allowlist : Dictionary
  blocklist : Dictionary
  passwords : Option Passwords
  certstore : Option Zcertstore
  allowAny : Bool
  terminated : Bool
  verbose : Bool

namespace Zauth

def new (certstore : Option Zcertstore) : Zauth where
  allowlist := Zhashx.new defaultCallbacks
  blocklist := Zhashx.new defaultCallbacks
  passwords := none
  certstore := certstore
  allowAny := false
  terminated := false
  verbose := false

def string (frame : List UInt8) : CString := .ofBuffer (frame ++ [0])

def okValue : CString := .ofBuffer (Bytes.ascii "OK")

def insertAddress (list : Dictionary) (address : CString) : Except Fault (Int × Dictionary) :=
  list.insert address (some okValue)

def insertAddresses (list : Dictionary) (frames : List (List UInt8)) : Except Fault Dictionary :=
  (Machine.run insertAddress list (frames.map string)).map (·.2)

def curveAllowAny : List UInt8 := Bytes.ascii "*"

section
variable (z : Z85) (flat : Zdir.Flattening)

def handlePlain (host : Host) (self : Zauth) (filename : List UInt8) : Except Fault Zauth := do
  match self.passwords with
  | some passwords => do
    let _ ← passwords.table.sPurge
    let passwords ← Passwords.load host (Zhashx.new defaultCallbacks) (string filename)
    pure { self with passwords := some passwords }
  | none => do
    let passwords ← Passwords.load host (Zhashx.new defaultCallbacks) (string filename)
    pure { self with passwords := some passwords }

def handleCurve (host : Host) (self : Zauth) (location : List UInt8) : Except Fault Zauth := do
  if (string location).1 = curveAllowAny then pure { self with allowAny := true }
  else match self.certstore with
    | some certstore => do
      let _ ← certstore.certs.sPurge
      let certstore ← Zcertstore.new z flat host.toDisk (string location).1
      pure { self with certstore := some certstore, allowAny := false }
    | none => do
      let certstore ← Zcertstore.new z flat host.toDisk (string location).1
      pure { self with certstore := some certstore, allowAny := false }

/-- `s_self_handle_pipe`. A missing frame is read through `NULL`. -/
def handlePipe (host : Host) (self : Zauth) : List (List UInt8) → Except Fault Zauth
  | [] => .error (.outOfBounds 0)
  | command :: frames =>
    if (string command).1 = Bytes.ascii "ALLOW" then do
      let allowlist ← insertAddresses self.allowlist frames
      pure { self with allowlist := allowlist }
    else if (string command).1 = Bytes.ascii "DENY" then do
      let blocklist ← insertAddresses self.blocklist frames
      pure { self with blocklist := blocklist }
    else if (string command).1 = Bytes.ascii "PLAIN" then
      match frames with
      | [] => .error (.outOfBounds 0)
      | filename :: _ => handlePlain host self filename
    else if (string command).1 = Bytes.ascii "CURVE" then
      match frames with
      | [] => .error (.outOfBounds 0)
      | location :: _ => handleCurve z flat host self location
    else if (string command).1 = Bytes.ascii "GSSAPI" then .ok self
    else if (string command).1 = Bytes.ascii "VERBOSE" then .ok { self with verbose := true }
    else if (string command).1 = Bytes.ascii "$TERM" then .ok { self with terminated := true }
    else .error .assertion

/-! ## Requests -/

/-- The credentials of `s_zap_request_new`, `none` where a frame is missing. -/
inductive Credentials where
  | nothing
  | plain (username password : Option CString)
  | curve (clientKey : CString)
  | gssapi (principal : Option CString)

structure ZapRequest where
  sequence : CString
  address : CString
  mechanism : CString
  credentials : Credentials

def clientKeyOf (key : Key) : CString := ⟨z.encode key, fun h => (z.plain _ _ h).2.2 rfl⟩

def credentialsOf (mechanism : CString) (frames : List (List UInt8)) : Except Fault Credentials :=
  if mechanism.1 = Bytes.ascii "PLAIN" then .ok (.plain (frames[0]?.map string) (frames[1]?.map string))
  else if mechanism.1 = Bytes.ascii "CURVE" then
    match frames with
    | [] => .error .assertion
    | frame :: _ => if h : frame.length = 32 then .ok (.curve (clientKeyOf z ⟨frame, h⟩))
      else .error .assertion
  else if mechanism.1 = Bytes.ascii "GSSAPI" then .ok (.gssapi (frames[0]?.map string))
  else .ok .nothing

def zapRequestNew : List (List UInt8) → Except Fault ZapRequest
  | version :: sequence :: _ :: address :: _ :: mechanism :: frames =>
    if (string version).1 = Bytes.ascii "1.0" then do
      let credentials ← credentialsOf z (string mechanism) frames
      pure ⟨string sequence, string address, string mechanism, credentials⟩
    else .error .assertion
  | _ => .error (.outOfBounds 0)

structure Reply where
  version : List UInt8
  sequence : List UInt8
  statusCode : List UInt8
  statusText : List UInt8
  userId : List UInt8
  metadata : List UInt8
  deriving DecidableEq

def zapRequestReply (request : ZapRequest) (statusCode statusText : List UInt8)
    (userId : Option CString) (metadata : List UInt8) : Reply :=
  ⟨Bytes.ascii "1.0", request.sequence.1, statusCode, statusText, userId.elim [] (·.1), metadata⟩

def addProperty (metadata : List UInt8) (entry : List UInt8 × List UInt8) :
    Except Fault (List UInt8) :=
  if entry.1.length > 255 then .error .assertion
  else if metadata.length + (1 + entry.1.length) > 512 then .error (.outOfBounds 512)
  else if entry.2.length > 0x7FFFFFFF then .error .assertion
  else if metadata.length + (1 + entry.1.length + 4 + entry.2.length) > 512 then
    .error (.outOfBounds 512)
  else .ok (metadata ++ UInt8.ofNat entry.1.length :: entry.1 ++ toBytes 4 entry.2.length ++ entry.2)

/-- `s_authenticate_plain`: whether the client is allowed, and its name. -/
def authenticatePlain (host : Host) (self : Zauth) (username password : Option CString) :
    Except Fault (Bool × Option CString × Zauth) :=
  match self.passwords with
  | none => .ok (false, none, self)
  | some passwords => do
    let passwords ← passwords.refresh host
    match username with
    | none => .error .assertion
    | some name => do
      let (found, table) ← passwords.table.lookup name
      let self := { self with passwords := some { passwords with table := table } }
      match found, password with
      | none, _ => pure (false, none, self)
      | some _, none => .error (.outOfBounds 0)
      | some found, some password =>
        if found = password then pure (true, some name, self) else pure (false, none, self)

variable (order : List (List UInt8 × List UInt8) → List (List UInt8 × List UInt8))

def authenticateCurve (host : Host) (self : Zauth) (clientKey : CString) :
    Except Fault (Bool × Option CString × List UInt8 × Zauth) :=
  if self.allowAny then .ok (true, none, [], self)
  else match self.certstore with
    | none => .ok (false, none, [], self)
    | some certstore => do
      let (cert, certstore) ← certstore.lookup z flat host.toDisk clientKey
      let self := { self with certstore := some certstore }
      match cert with
      | some cert => do
        let metadata ← (order cert.metadata).foldlM addProperty []
        pure (true, some clientKey, metadata, self)
      | none => pure (false, none, [], self)

def checkAddress (self : Zauth) (address : CString) : Except Fault (Bool × Bool × Zauth) :=
  if self.allowlist.size ≠ 0 then do
    let (found, allowlist) ← self.allowlist.lookup address
    pure (found.isSome, found.isNone, { self with allowlist := allowlist })
  else if self.blocklist.size ≠ 0 then do
    let (found, blocklist) ← self.blocklist.lookup address
    pure (found.isNone, found.isSome, { self with blocklist := blocklist })
  else .ok (false, false, self)

def checkMechanism (host : Host) (self : Zauth) (request : ZapRequest) (allowed : Bool) :
    Except Fault (Bool × Option CString × List UInt8 × Zauth) :=
  if request.mechanism.1 = Bytes.ascii "NULL" ∧ allowed = false then .ok (true, none, [], self)
  else match request.credentials with
    | .plain username password => do
      let (allowed, userId, self) ← authenticatePlain host self username password
      pure (allowed, userId, [], self)
    | .curve clientKey => authenticateCurve z flat order host self clientKey
    | .gssapi principal => .ok (true, principal, [], self)
    | .nothing => .ok (allowed, none, [], self)

def authenticate (host : Host) (self : Zauth) (frames : List (List UInt8)) :
    Except Fault (Reply × Zauth) := do
  let request ← zapRequestNew z frames
  let (allowed, denied, self) ← checkAddress self request.address
  let (allowed, userId, metadata, self) ←
    if denied then pure (allowed, none, [], self)
    else checkMechanism z flat order host self request allowed
  if allowed then pure (zapRequestReply request (Bytes.ascii "200") (Bytes.ascii "OK") userId metadata, self)
  else pure (zapRequestReply request (Bytes.ascii "400") (Bytes.ascii "No access") userId [], self)

inductive Event where
  | command (host : Host) (frames : List (List UInt8))
  | request (host : Host) (frames : List (List UInt8))

/-- A round of the loop in `zauth`: the reply to a request, if it is one. After `$TERM` nothing is
received. -/
def step (self : Zauth) (event : Event) : Except Fault (Option Reply × Zauth) :=
  if self.terminated then .ok (none, self)
  else match event with
    | .command host frames => (handlePipe z flat host self frames).map fun self => (none, self)
    | .request host frames =>
      (authenticate z flat order host self frames).map fun p => (some p.1, p.2)

end

end Zauth

end Czmq
