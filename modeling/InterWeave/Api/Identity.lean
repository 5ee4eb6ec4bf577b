import InterWeave.Lib.OrderedMap

/-!
The identifier types of `transport-api`: endpoint and channel labels, message
ids and peer identities. Each one is a structure whose proof field is the test
its `parse` makes, so a value outside the grammar cannot be written down.
-/

namespace InterWeave

def bytesOf (value : String) : List UInt8 :=
  value.toByteArray.data.toList

def isAsciiLowercase (b : UInt8) : Bool :=
  0x61 ≤ b && b ≤ 0x7a

def isAsciiUppercase (b : UInt8) : Bool :=
  0x41 ≤ b && b ≤ 0x5a

def isAsciiDigit (b : UInt8) : Bool :=
  0x30 ≤ b && b ≤ 0x39

def isAsciiAlphanumeric (b : UInt8) : Bool :=
  isAsciiLowercase b || isAsciiUppercase b || isAsciiDigit b

inductive IdError where
  | empty
  | tooLong (got max : Nat)
  | illegalByte (index : Nat) (byte : UInt8)
  | illegalLeadingByte (byte : UInt8)
  | wrongLength (got expected : Nat)
  | notCanonicalPeerId
  deriving DecidableEq, Repr

def firstIllegal (ok : UInt8 → Bool) : Nat → List UInt8 → Option (Nat × UInt8)
  | _, [] => none
  | index, b :: rest => if ok b then firstIllegal ok (index + 1) rest else some (index, b)

/-- The shape `EndpointId::parse` and `ChannelId::parse` share: not empty, within
the bound, a legal leading byte, then every byte legal. -/
def checkLabel (maxBytes : Nat) (leading ok : UInt8 → Bool) (value : String) :
    Except IdError Unit :=
  match bytesOf value with
  | [] => .error .empty
  | first :: rest =>
    if (first :: rest).length > maxBytes then
      .error (.tooLong (first :: rest).length maxBytes)
    else if !leading first then
      .error (.illegalLeadingByte first)
    else
      match firstIllegal ok 0 (first :: rest) with
      | some (index, byte) => .error (.illegalByte index byte)
      | none => .ok ()

namespace EndpointId

def maxBytes : Nat := 64

def legal (b : UInt8) : Bool :=
  isAsciiLowercase b || isAsciiDigit b || b == 0x2e || b == 0x5f || b == 0x2d

def check (value : String) : Except IdError Unit :=
  checkLabel maxBytes isAsciiLowercase legal value

end EndpointId

namespace ChannelId

def maxBytes : Nat := 128

def legal (b : UInt8) : Bool :=
  isAsciiAlphanumeric b || b == 0x2e || b == 0x5f || b == 0x3a || b == 0x2f || b == 0x2d

def check (value : String) : Except IdError Unit :=
  checkLabel maxBytes isAsciiAlphanumeric legal value

end ChannelId

namespace TransportIdentity

def maxBytes : Nat := 256

/-- The base58btc alphabet: alphanumeric without `0`, `O`, `I` and `l`. -/
def base58Glyph (b : UInt8) : Bool :=
  isAsciiAlphanumeric b && !(b == 0x30 || b == 0x4f || b == 0x49 || b == 0x6c)

def canonicalRest (bytes : List UInt8) : Option (List UInt8) :=
  if (bytesOf "12D3KooW").isPrefixOf bytes then some (bytes.drop 8)
  else if (bytesOf "Qm").isPrefixOf bytes then some (bytes.drop 2)
  else none

/-- The textual half of `check_canonical`. The multihash envelope behind the
base58 decoder is not read here, so this accepts every identity the source
accepts and the texts whose decoding it would refuse. -/
def check (value : String) : Except IdError Unit :=
  if (bytesOf value).isEmpty then .error .empty
  else if (bytesOf value).length > maxBytes then
    .error (.tooLong (bytesOf value).length maxBytes)
  else
    match canonicalRest (bytesOf value) with
    | none => .error .notCanonicalPeerId
    | some rest =>
      if rest.length ≠ 44 then .error .notCanonicalPeerId
      else if rest.all base58Glyph then .ok () else .error .notCanonicalPeerId

end TransportIdentity

@[ext]
structure EndpointId where
  asStr : String
  valid : EndpointId.check asStr = .ok ()

@[ext]
structure ChannelId where
  asStr : String
  valid : ChannelId.check asStr = .ok ()

@[ext]
structure TransportIdentity where
  asStr : String
  valid : TransportIdentity.check asStr = .ok ()

def EndpointId.parse (value : String) : Except IdError EndpointId :=
  match valid : EndpointId.check value with
  | .error error => .error error
  | .ok () => .ok ⟨value, valid⟩

def ChannelId.parse (value : String) : Except IdError ChannelId :=
  match valid : ChannelId.check value with
  | .error error => .error error
  | .ok () => .ok ⟨value, valid⟩

def TransportIdentity.parse (value : String) : Except IdError TransportIdentity :=
  match valid : TransportIdentity.check value with
  | .error error => .error error
  | .ok () => .ok ⟨value, valid⟩

@[ext]
structure MessageId where
  bytes : List UInt8
  length : bytes.length = 16

/-- Texts are ordered by their bytes. -/
def byteOrder (value : String) : List Nat :=
  (bytesOf value).map UInt8.toNat

theorem map_toNat_injective : Function.Injective (List.map UInt8.toNat) :=
  List.map_injective_iff.mpr fun _ _ => UInt8.toNat_inj.mp

theorem byteOrder_injective : Function.Injective byteOrder := by
  intro first second same
  have bytes : first.toByteArray.data.toList = second.toByteArray.data.toList :=
    map_toNat_injective same
  exact String.toByteArray_inj.mp (ByteArray.ext (Array.toList_inj.mp bytes))

instance : LinearOrder EndpointId :=
  LinearOrder.lift' (fun id => byteOrder id.asStr) fun _ _ same =>
    EndpointId.ext (byteOrder_injective same)

instance : LinearOrder ChannelId :=
  LinearOrder.lift' (fun id => byteOrder id.asStr) fun _ _ same =>
    ChannelId.ext (byteOrder_injective same)

instance : LinearOrder TransportIdentity :=
  LinearOrder.lift' (fun id => byteOrder id.asStr) fun _ _ same =>
    TransportIdentity.ext (byteOrder_injective same)

instance : LinearOrder MessageId :=
  LinearOrder.lift' (fun id => id.bytes.map UInt8.toNat) fun _ _ same =>
    MessageId.ext (map_toNat_injective same)

instance : LawfulBEq TransportIdentity := inferInstance

theorem TransportIdentity.check_plain :
    check "12D3KooWA9hFCGwGCpCbWWfLmYSpqPzXgLmPvbBrgWGNvNGSDVpS" = .ok () := by
  decide

end InterWeave
