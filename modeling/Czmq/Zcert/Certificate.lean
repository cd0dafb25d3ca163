import Czmq.Base.Z85
import Czmq.Zconfig.RoundTrip

/-! Certificates (`zcert.c`) and their files: a tree of `zconfig.c` with a section for the metadata
and one for the keys. -/

namespace Czmq

/-- `zcert_t`. The texts of the keys are their encodings; the metadata are in the order in which the
names were first set. -/
structure Zcert where
  publicKey : Key
  secretKey : Key
  metadata : List (List UInt8 × List UInt8)
  deriving DecidableEq

namespace Zcert

open Zconfig

def metadataName : List UInt8 := Bytes.ascii "metadata"
def curveName : List UInt8 := Bytes.ascii "curve"
def publicKeyName : List UInt8 := Bytes.ascii "public-key"
def secretKeyName : List UInt8 := Bytes.ascii "secret-key"

def publicKeyPath : List UInt8 := slash :: curveName ++ slash :: publicKeyName

def secretKeyPath : List UInt8 := slash :: curveName ++ slash :: secretKeyName

/-- `zcert_set_meta` with the format `"%s"`. A name that is set keeps its value. -/
def setMeta (self : Zcert) (name value : List UInt8) : Except Fault Zcert := do
  let value ← zsysVprintf value
  pure (if self.metadata.any fun entry => entry.1 == name then self
    else { self with metadata := self.metadata ++ [(name, value)] })

def loadMetadata (self : Zcert) : Zconfig → Except Fault Zcert
  | .nil => .ok self
  | .node a _ next =>
    match a.name, a.value with
    | some name, some value => do
      let self ← self.setMeta name value
      loadMetadata self next
    | _, _ => .error .assertion

section
variable (z : Z85)

def publicTxt (self : Zcert) : List UInt8 := z.encode self.publicKey

def secretKeyOf : Option (List UInt8) → Key
  | some text => if text.length = 40 then z.decode text else .zero
  | none => .zero

def ofConfig (root : Zconfig) : Except Fault (Option Zcert) := do
  match ← root.get publicKeyPath none with
  | none => pure none
  | some publicText =>
    if publicText.length = 40 then do
      let secretText ← root.get secretKeyPath none
      let self : Zcert := ⟨z.decode publicText, secretKeyOf z secretText, []⟩
      match root with
      | .nil => .error .assertion
      | .node _ child _ => match ← childNamed metadataName child with
        | some (_, items) => do
          let self ← self.loadMetadata items
          pure (some self)
        | none => pure (some self)
    else pure none

def ofText (text : List UInt8) : Except Fault (Option Zcert) :=
  match chunkLoad text with
  | some root => ofConfig z root
  | none => .ok none

def secretName (filename : List UInt8) : List UInt8 := (filename ++ Bytes.ascii "_secret").take 255

def load (read : List UInt8 → Option (List UInt8)) (filename : List UInt8) :
    Except Fault (Option Zcert) :=
  match ((read (secretName filename)).bind chunkLoad).or ((read filename).bind chunkLoad) with
  | some root => ofConfig z root
  | none => .ok none

/-- The items of the metadata, in the order of `zhash`. -/
def metadataItems : List (List UInt8 × List UInt8) → Except Fault Zconfig
  | [] => .ok .nil
  | (name, value) :: rest => do
    let value ← zsysVprintf value
    let next ← metadataItems rest
    pure (.node (setValue value (new (some name))) .nil next)

def generatedOn (timestr : List UInt8) : List UInt8 :=
  Bytes.ascii "   ****  Generated on " ++ timestr ++ Bytes.ascii " by CZMQ  ****"

def publicComments : List (List UInt8) :=
  ["   ZeroMQ CURVE Public Certificate",
    "   Exchange securely, or use a secure mechanism to verify the contents",
    "   of this file after exchange. Store public certificates in your home",
    "   directory, in the .curve subdirectory."].map Bytes.ascii

variable (order : List (List UInt8 × List UInt8) → List (List UInt8 × List UInt8))

def saveMetadataAll (timestr : List UInt8) (self : Zcert) : Except Fault Zconfig := do
  let items ← metadataItems (order self.metadata)
  (root (.node (new (some metadataName)) items .nil)).setComment (generatedOn timestr)

def savePublic (timestr : List UInt8) (self : Zcert) : Except Fault (List UInt8) := do
  let config ← saveMetadataAll order timestr self
  let config ← publicComments.foldlM setComment config
  let config ← config.put publicKeyPath (self.publicTxt z)
  config.save

end

end Zcert

end Czmq
