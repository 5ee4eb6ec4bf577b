import InterWeave.Api.Payload
import InterWeave.Lib.Wire

/-!
`runtime::fingerprint`: the bytes a direct message's content is hashed from.
SHA-256 itself is a parameter of everything that hashes.
-/

namespace InterWeave

open Wire (beBytes)

@[ext]
structure ContentFingerprint where
  bytes : List UInt8
  length : bytes.length = 32
  deriving DecidableEq

inductive FingerprintError where
  | emptyMediaType
  | mediaTypeTooLong (got : Nat)
  | mediaTypeNotPrintable
  deriving DecidableEq, Repr

namespace Fingerprint

def domain : List UInt8 :=
  bytesOf "interweave/direct-content-fingerprint/v1" ++ [0]

def encodeMedia : Option String → Except FingerprintError (List UInt8)
  | none => .ok [0]
  | some media =>
    let bytes := bytesOf media
    if bytes.isEmpty then .error .emptyMediaType
    else if !bytes.all isPrintableAscii then .error .mediaTypeNotPrintable
    else if bytes.length > 128 then .error (.mediaTypeTooLong bytes.length)
    else .ok ([1] ++ beBytes 2 (min bytes.length (2 ^ 16 - 1)) ++ bytes)

def directContent (mediaType : Option String) (payload : List UInt8) :
    Except FingerprintError (List UInt8) :=
  (encodeMedia mediaType).map fun media =>
    domain ++ media ++ beBytes 4 (min payload.length (2 ^ 32 - 1)) ++ payload

end Fingerprint

def directContentFingerprintV1 (sha256 : List UInt8 → ContentFingerprint)
    (mediaType : Option String) (payload : List UInt8) :
    Except FingerprintError ContentFingerprint :=
  (Fingerprint.directContent mediaType payload).map sha256

theorem Fingerprint.encodeMedia_typed (mediaType : Option MediaType) :
    ∃ media, Fingerprint.encodeMedia (mediaType.map MediaType.asStr) = .ok media := by
  cases mediaType with
  | none => exact ⟨[0], rfl⟩
  | some mediaType =>
    obtain ⟨nonempty, short, printable⟩ := MediaType.check_ok mediaType.valid
    have withinBound : ¬128 < (bytesOf mediaType.asStr).length := Nat.not_lt.mpr short
    simp [Fingerprint.encodeMedia, nonempty, printable, withinBound]

theorem directContentFingerprintV1_typed (sha256 : List UInt8 → ContentFingerprint)
    (payload : Payload) :
    ∃ fingerprint, directContentFingerprintV1 sha256
      (payload.mediaType.map MediaType.asStr) payload.bytes = .ok fingerprint := by
  obtain ⟨media, encoded⟩ := Fingerprint.encodeMedia_typed payload.mediaType
  simp only [directContentFingerprintV1, Fingerprint.directContent, encoded]
  exact ⟨_, rfl⟩

end InterWeave
