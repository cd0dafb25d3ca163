import Czmq.Zcert.Certificate
import Czmq.Zdir.Scan
import Czmq.Zhashx.Strings

/-! Certificate stores (`zcertstore.c`). A store on a directory keeps the certificates of its files,
and loads them again at a lookup if the signature of the directory has changed. -/

namespace Czmq

open Bytes

/-- The disk at one time: what `zdir_new` finds, which files are regular, and what `zconfig_load`
reads of them. -/
structure Disk where
  dir : List UInt8 → Option (Zdir.Directory × Zdir)
  regular : List UInt8 → Bool
  read : List UInt8 → Option (List UInt8)
  scanned : ∀ path, ∀ x ∈ dir path, x.1.count = (Zdir.signature x).count

structure DiskLoader where
  location : List UInt8
  signature : Zdir.Signature
  deriving DecidableEq

structure Zcertstore where
  loader : Option DiskLoader
  certs : Zhashx CString Zcert

namespace Zcertstore

open Zdir

def isSecret (filename : List UInt8) : Bool := (Bytes.ascii "_secret").isSuffixOf filename

section
variable (z : Z85)

def keyOf (cert : Zcert) : CString := ⟨cert.publicTxt z, fun h => (z.plain _ _ h).2.2 rfl⟩

def insertCert (certs : Zhashx CString Zcert) (cert : Zcert) :
    Except Fault (Zhashx CString Zcert) := do
  let (rc, certs) ← certs.insert (keyOf z cert) (some cert)
  if rc = 0 then pure certs else .error .assertion

def certificate (disk : Disk) (file : Zfile) : Except Fault (Option Zcert) :=
  if disk.regular file.fullname && !isSecret file.fullname then
    Zcert.load z disk.read file.fullname
  else .ok none

def loadFiles (disk : Disk) :
    List (Option Zfile) → Zhashx CString Zcert → Except Fault (Zhashx CString Zcert)
  | [], _ => .error (.outOfBounds 0)
  | none :: _, certs => .ok certs
  | some file :: files, certs => do
    match ← certificate z disk file with
    | some cert => do
      let certs ← insertCert z certs cert
      loadFiles disk files certs
    | none => loadFiles disk files certs

variable (flat : Flattening)

def diskLoader (disk : Disk) (loader : DiskLoader) (certs : Zhashx CString Zcert) :
    Except Fault (DiskLoader × Zhashx CString Zcert) :=
  if loader.location = [] then .error .assertion
  else match disk.dir loader.location with
    | none => .ok (loader, certs)
    | some dir =>
      if loader.signature ≠ signature dir then do
        let certs ← certs.purge
        let files ← flat.list dir
        let certs ← loadFiles z disk files certs
        pure ({ loader with signature := signature dir }, certs)
      else .ok (loader, certs)

def refresh (disk : Disk) (self : Zcertstore) : Except Fault Zcertstore :=
  match self.loader with
  | none => .ok self
  | some loader => do
    let (loader, certs) ← diskLoader z flat disk loader self.certs
    pure ⟨some loader, certs⟩

def blank (location : List UInt8) : Zcertstore where
  loader := some ⟨location, .zero⟩
  certs := Zhashx.new { Zhashx.stringCallbacks Zcert with destructor := true }

def new (disk : Disk) (location : List UInt8) : Except Fault Zcertstore :=
  refresh z flat disk (blank location)

def lookup (disk : Disk) (self : Zcertstore) (publicKey : CString) :
    Except Fault (Option Zcert × Zcertstore) := do
  let self ← refresh z flat disk self
  let (cert, certs) ← self.certs.lookup publicKey
  pure (cert, { self with certs := certs })

/-- One call, with the disk at that time: a lookup, or the loader alone. -/
def call (self : Zcertstore) (c : Disk × Option CString) : Except Fault (Option Zcert × Zcertstore) :=
  match c.2 with
  | some publicKey => lookup z flat c.1 self publicKey
  | none => (refresh z flat c.1 self).map fun self => (none, self)

end

end Zcertstore

end Czmq
