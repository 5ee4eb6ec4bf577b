import InterWeave.Api.DirectV2Core
import InterWeave.Lib.ChunkedRead
import InterWeave.Lib.Json

/-!
`human::chat-protocol`: the `HumanChatV2` envelope, its media type, and the sizes that decide
whether it goes out as itself or compressed.
-/

namespace InterWeave.Chat

def maxSentAtMs : Nat := 253_402_300_799_999
def maxDecompressedBytes : Nat := 196_608
def baseMediaType : String := "application/vnd.interweave-human-chat+json"
def mediaTypeV2 : String := "application/vnd.interweave-human-chat+json;v=2"
def contentEncodingBrotli : String := "br"
def duplicateMemberMark : String := "interweave-duplicate-member:"

/-- `serde_json`: how a flat record is written, how a text is read, and the text of an error that
a visitor raises while it reads a document. -/
structure JsonCodec where
  toVec : List (String × Json) → List UInt8
  read : String → Json
  located : String → String → String

/-- `brotli`: what it compresses to, and the stream that a compressed input opens. -/
structure Brotli where
  compress : List UInt8 → List UInt8
  decompressor : List UInt8 → ChunkedRead.Source UInt8

inductive MessageKind where
  | text
  deriving DecidableEq, Repr

structure HumanChatV2 where
  v : Nat
  kind : MessageKind
  appMessageId : String
  text : String
  replyTo : Option String
  sentAtMs : Option Nat
  fromEndpoint : Option EndpointId
  deriving DecidableEq

inductive EnvelopeError where
  | notJson (detail : String)
  | unsupportedVersion
  | unsupportedKind
  | malformedId (field : String)
  | missingText
  | timestampOutOfRange
  | malformedFromEndpoint
  | duplicateMember (name : String)
  deriving DecidableEq, Repr

def isCanonicalId (value : String) : Bool :=
  (bytesOf value).length == 32 &&
    (bytesOf value).all fun b => isAsciiDigit b || (0x61 ≤ b && b ≤ 0x66)

namespace HumanChatV2

/-- The members in the order of the fields; an absent field is not written. -/
def members (envelope : HumanChatV2) : List (String × Json) :=
  [("v", Json.unsigned envelope.v), ("kind", Json.string "text"),
    ("app_message_id", Json.string envelope.appMessageId), ("text", Json.string envelope.text)] ++
  envelope.replyTo.toList.map (fun id => ("reply_to", Json.string id)) ++
  envelope.sentAtMs.toList.map (fun time => ("sent_at_ms", Json.unsigned time)) ++
  envelope.fromEndpoint.toList.map fun endpoint => ("from_endpoint", Json.string endpoint.asStr)

def afterText (text : List Char) : List Char → Option (List Char)
  | [] => if text.isEmpty then some [] else none
  | first :: rest =>
    if text.isPrefixOf (first :: rest) then some ((first :: rest).drop text.length)
    else afterText text rest

/-- What comes before the first place where a text occurs, or all of it. -/
def beforeText (text : List Char) : List Char → List Char
  | [] => []
  | first :: rest =>
    if text.isPrefixOf (first :: rest) then [] else first :: beforeText text rest

/-- The error of a document that could not be read, told from its text. -/
def readError (detail : String) : EnvelopeError :=
  match afterText duplicateMemberMark.toList detail.toList with
  | none => .notJson detail
  | some rest => .duplicateMember (String.ofList (beforeText " at line ".toList rest))

def failureText (codec : JsonCodec) (text : String) : Json.Failure → String
  | .notJson detail => detail
  | .duplicateMember name => codec.located text (duplicateMemberMark ++ name)

def okOr {α : Type} (reason : EnvelopeError) : Option α → Except EnvelopeError α
  | some value => .ok value
  | none => .error reason

def require (reason : EnvelopeError) (holds : Bool) : Except EnvelopeError Unit :=
  if holds then .ok () else .error reason

def parseId (field : String) (value : Json) : Except EnvelopeError String :=
  okOr (.malformedId field) (value.asStr.filter isCanonicalId)

def parseSentAt (value : Json) : Except EnvelopeError Nat :=
  okOr .timestampOutOfRange (value.asU64.filter (· ≤ maxSentAtMs))

def parseFromEndpoint (value : Json) : Except EnvelopeError EndpointId :=
  okOr .malformedFromEndpoint (value.asStr.bind fun text => (EndpointId.parse text).toOption)

/-- A member that may be missing, but is not `null` when it is there. -/
def parseOptional {α : Type} (parse : Json → Except EnvelopeError α) :
    Option Json → Except EnvelopeError (Option α)
  | none => .ok none
  | some value => (parse value).map some

def parseDocument (raw : Json) : Except EnvelopeError HumanChatV2 := do
  require .unsupportedVersion ((raw.get "v").bind Json.asU64 == some 2)
  require .unsupportedKind ((raw.get "kind").bind Json.asStr == some "text")
  let appMessageId ← okOr (.malformedId "app_message_id")
    (((raw.get "app_message_id").bind Json.asStr).filter isCanonicalId)
  let text ← okOr .missingText ((raw.get "text").bind Json.asStr)
  let replyTo ← parseOptional (parseId "reply_to") (raw.get "reply_to")
  let sentAtMs ← parseOptional parseSentAt (raw.get "sent_at_ms")
  let fromEndpoint ← parseOptional parseFromEndpoint (raw.get "from_endpoint")
  pure
    { v := 2, kind := .text, appMessageId := appMessageId, text := text, replyTo := replyTo,
      sentAtMs := sentAtMs, fromEndpoint := fromEndpoint }

def parse (codec : JsonCodec) (text : String) : Except EnvelopeError HumanChatV2 :=
  let raw := codec.read text
  match raw.check with
  | .error failure => .error (readError (failureText codec text failure))
  | .ok () => parseDocument raw

end HumanChatV2

inductive ContentEncoding where
  | identity
  | brotli
  deriving DecidableEq, Repr

structure MediaTypeInfo where
  version : Nat
  encoding : ContentEncoding
  deriving DecidableEq, Repr

inductive DecodeError where
  | notHumanChat
  | unsupportedVersion (found : Nat)
  | malformedVersion
  | unsupportedContentEncoding (found : String)
  | duplicateParameter (name : String)
  | decompressedTooLarge (limit : Nat)
  | malformedCompressedStream
  | notUtf8
  deriving DecidableEq, Repr

def isWhitespace (c : Char) : Bool :=
  let code := c.toNat
  (0x09 ≤ code && code ≤ 0x0d) || code == 0x20 || code == 0x85 || code == 0xa0 ||
    code == 0x1680 || (0x2000 ≤ code && code ≤ 0x200a) || code == 0x2028 || code == 0x2029 ||
    code == 0x202f || code == 0x205f || code == 0x3000

variable (codec : JsonCodec) (text : List Char) (brotli : Brotli)

def trim : List Char :=
  ((text.dropWhile isWhitespace).reverse.dropWhile isWhitespace).reverse

def eqIgnoreAsciiCase (first second : List Char) : Bool :=
  first.map Char.toLower == second.map Char.toLower

def splitOnce (separator : Char) (text : List Char) : Option (List Char × List Char) :=
  match text.span (· ≠ separator) with
  | (_, []) => none
  | (before, _ :: after) => some (before, after)

/-- `str::parse::<u32>`: decimal digits after an optional plus sign, within the type. -/
def parseU32 : Option Nat :=
  let digits := match text with
    | '+' :: rest => rest
    | all => all
  if digits.isEmpty ∨ ¬digits.all Char.isDigit then none
  else
    let value := digits.foldl (fun value digit => value * 10 + (digit.toNat - '0'.toNat)) 0
    if value < 2 ^ 32 then some value else none

structure Parameters where
  version : Option Nat := none
  encoding : Option ContentEncoding := none

def Parameters.take (read : Parameters) (raw : List Char) : Except DecodeError Parameters :=
  match splitOnce '=' (trim raw) with
  | none => .ok read
  | some (rawName, rawValue) =>
    let name := trim rawName
    let value := trim rawValue
    if eqIgnoreAsciiCase name ['v'] then
      if read.version.isSome then .error (.duplicateParameter "v")
      else
        match parseU32 value with
        | some version => .ok { read with version := some version }
        | none => .error .malformedVersion
    else if eqIgnoreAsciiCase name ['c', 'e'] then
      if read.encoding.isSome then .error (.duplicateParameter "ce")
      else if value ≠ contentEncodingBrotli.toList then
        .error (.unsupportedContentEncoding (String.ofList value))
      else .ok { read with encoding := some .brotli }
    else .ok read

def parseMediaType (mediaType : String) : Except DecodeError MediaTypeInfo :=
  let parts := mediaType.toList.splitOn ';'
  if !eqIgnoreAsciiCase (trim (parts.headD [])) baseMediaType.toList then .error .notHumanChat
  else
    match parts.tail.foldlM Parameters.take {} with
    | .error reason => .error reason
    | .ok read =>
      match read.version with
      | none => .error .malformedVersion
      | some version =>
        if version ≠ 2 then .error (.unsupportedVersion version)
        else .ok ⟨version, read.encoding.getD .identity⟩

def decompressBounded (input : List UInt8) (limit : Nat) : Except DecodeError (List UInt8) :=
  match ChunkedRead.read (brotli.decompressor input) 4096 limit with
  | .complete out => .ok out
  | .exceeded => .error (.decompressedTooLarge limit)
  | .broken => .error .malformedCompressedStream

def decodeText (bytes : List UInt8) : Except DecodeError String :=
  match fromUtf8 bytes with
  | some text => .ok text
  | none => .error .notUtf8

def decodeEnvelopeBytes (bytes : List UInt8) : ContentEncoding → Except DecodeError String
  | .identity =>
    if bytes.length > maxDecompressedBytes then
      .error (.decompressedTooLarge maxDecompressedBytes)
    else decodeText bytes
  | .brotli =>
    match decompressBounded brotli bytes maxDecompressedBytes with
    | .error reason => .error reason
    | .ok decoded => decodeText decoded

def senderMayCompress (rawLen maxPayloadBytes : Nat) : Bool :=
  rawLen > maxPayloadBytes && rawLen ≤ maxDecompressedBytes

structure Encoded where
  mediaType : String
  bytes : List UInt8
  deriving DecidableEq, Repr

inductive EncodeError where
  | overCeiling (raw ceiling : Nat)
  | doesNotFit (compressed maxPayloadBytes : Nat)
  deriving DecidableEq, Repr

def rawForm (envelope : HumanChatV2) : List UInt8 :=
  codec.toVec envelope.members

def encodeOutbound (envelope : HumanChatV2) (maxPayloadBytes : Nat) : Except EncodeError Encoded :=
  let raw := rawForm codec envelope
  if raw.length ≤ maxPayloadBytes then .ok ⟨mediaTypeV2, raw⟩
  else if !senderMayCompress raw.length maxPayloadBytes then
    .error (.overCeiling raw.length maxDecompressedBytes)
  else
    let compressed := brotli.compress raw
    if compressed.length > maxPayloadBytes then
      .error (.doesNotFit compressed.length maxPayloadBytes)
    else .ok ⟨mediaTypeV2 ++ ";ce=" ++ contentEncodingBrotli, compressed⟩

/-- The envelope that a payload carries, for a receiver that takes the three steps in turn. -/
def decode (mediaType : String) (payload : List UInt8) : Option HumanChatV2 := do
  let info ← (parseMediaType mediaType).toOption
  let text ← (decodeEnvelopeBytes brotli payload info.encoding).toOption
  (HumanChatV2.parse codec text).toOption

end InterWeave.Chat
