import InterWeave.Api.DirectV2Core

/-!
`ipc-protocol::framing` and the frame reader of `ipc-server`: four bytes of length, then a JSON
object. `serde_json` is a parameter of everything that parses.
-/

namespace InterWeave.Ipc

open Wire

def lengthPrefixBytes : Nat := 4

def maxBodyBytes : Nat := 131072

inductive FrameError where
  | bodyTooLarge (declared max : Nat)
  | zeroLength
  | incomplete (needed : Nat)
  | notUtf8
  | notJson (detail : String)
  | notAnObject
  deriving DecidableEq, Repr

structure SerdeJson where
  Value : Type
  fromStr : String → Except String Value
  isObject : Value → Bool

variable (json : SerdeJson)

def checkBody (body : String) : Except FrameError Unit :=
  match json.fromStr body with
  | .error detail => .error (.notJson detail)
  | .ok value => if json.isObject value then .ok () else .error .notAnObject

def encodeFrame (body : String) : Except FrameError (List UInt8) :=
  let bytes := bytesOf body
  if bytes.isEmpty then .error .zeroLength
  else if bytes.length > maxBodyBytes then .error (.bodyTooLarge bytes.length maxBodyBytes)
  else
    match checkBody json body with
    | .error error => .error error
    | .ok () =>
      if bytes.length ≥ 2 ^ 32 then .error (.bodyTooLarge bytes.length maxBodyBytes)
      else .ok (beBytes lengthPrefixBytes bytes.length ++ bytes)

structure DecodedFrame where
  body : String
  consumed : Nat
  deriving DecidableEq, Repr

open Reader

def takeOr (len : Nat) : Reader FrameError (List UInt8) :=
  take (fun available => .incomplete (len - available)) len

def bodyText (body : List UInt8) : Except FrameError String :=
  match fromUtf8 body with
  | none => .error .notUtf8
  | some text => (checkBody json text).map fun _ => text

/-- The declared length is judged before the buffer is looked at again. -/
def takeFrame : Reader FrameError DecodedFrame := do
  let raw ← takeOr lengthPrefixBytes
  let declared := fromBe raw
  if declared = 0 then lift (.error .zeroLength)
  else if declared > maxBodyBytes then lift (.error (.bodyTooLarge declared maxBodyBytes))
  else
    let body ← takeOr declared
    let text ← lift (bodyText json body)
    pure ⟨text, lengthPrefixBytes + declared⟩

def decodeFrame (buffer : List UInt8) : Except FrameError DecodedFrame :=
  (takeFrame json buffer).map Prod.fst

inductive ReadError where
  | frame (error : FrameError)
  | truncated
  | io
  deriving DecidableEq, Repr

/-- What one `read` of the socket answers; no byte at all is its end. -/
inductive SocketRead where
  | bytes (chunk : List UInt8)
  | failed
  deriving DecidableEq, Repr

structure FrameReader where
  inner : List SocketRead
  buf : List UInt8
  deriving DecidableEq, Repr

namespace FrameReader

def new (inner : List SocketRead) : FrameReader := ⟨inner, []⟩

def atEnd (buf : List UInt8) : Except ReadError (Option String) :=
  if buf.isEmpty then .ok none else .error .truncated

/-- One turn of the loop of `next` without the read: nothing while the frame is incomplete. -/
def settled (inner : List SocketRead) (buf : List UInt8) :
    Option (Except ReadError (Option String) × FrameReader) :=
  match decodeFrame json buf with
  | .ok decoded => some (.ok (some decoded.body), ⟨inner, buf.drop decoded.consumed⟩)
  | .error (.incomplete _) => none
  | .error error => some (.error (.frame error), ⟨inner, buf⟩)

def nextFrom : List SocketRead → List UInt8 → Except ReadError (Option String) × FrameReader
  | [], buf => (settled json [] buf).getD (atEnd buf, ⟨[], buf⟩)
  | .failed :: rest, buf => (settled json (.failed :: rest) buf).getD (.error .io, ⟨rest, buf⟩)
  | .bytes chunk :: rest, buf =>
    match settled json (.bytes chunk :: rest) buf with
    | some answer => answer
    | none =>
      if chunk.length = 0 then (atEnd buf, ⟨rest, buf⟩) else nextFrom rest (buf ++ chunk)

def next (reader : FrameReader) : Except ReadError (Option String) × FrameReader :=
  nextFrom json reader.inner reader.buf

def answers : Nat → FrameReader → List (Except ReadError (Option String))
  | 0, _ => []
  | calls + 1, reader => (reader.next json).1 :: answers calls (reader.next json).2

end FrameReader

end InterWeave.Ipc
