import InterWeave.Api.DirectV2
import InterWeave.Human.ChatCore
import InterWeave.Lib.Fallible

/-!
What a sender puts on the wire is what a receiver reads back: the choice of the raw or the
compressed form, the media type that names it, and the strict parser agree on every envelope.
-/

namespace InterWeave.Chat

open Fallible (bind_eq_ok)

def JsonCodec.RoundTrips (codec : JsonCodec) (members : List (String × Json)) : Prop :=
  ∃ text, codec.toVec members = bytesOf text ∧ codec.read text = .object members

def Brotli.RoundTrips (brotli : Brotli) (raw : List UInt8) : Prop :=
  (brotli.decompressor (brotli.compress raw)).content = raw ∧
    (brotli.decompressor (brotli.compress raw)).clean = true

namespace HumanChatV2

variable {envelope : HumanChatV2}

structure Valid (envelope : HumanChatV2) : Prop where
  version : envelope.v = 2
  id : isCanonicalId envelope.appMessageId = true
  reply : ∀ id ∈ envelope.replyTo, isCanonicalId id = true
  time : ∀ time ∈ envelope.sentAtMs, time ≤ maxSentAtMs

theorem Valid.flat (valid : envelope.Valid) : ∀ member ∈ envelope.members, member.2.Scalar := by
  obtain ⟨v, kind, id, text, replyTo, sentAtMs, fromEndpoint⟩ := envelope
  have version : v = 2 := valid.version
  have time := valid.time
  have small : maxSentAtMs < 2 ^ 64 := by decide
  intro member listed
  simp only [members, List.mem_append, List.mem_cons, List.not_mem_nil, or_false, List.mem_map,
    Option.mem_toList] at listed
  rcases listed with (((rfl | rfl | rfl | rfl) | ⟨id, -, rfl⟩) | ⟨time', sent, rfl⟩) |
    ⟨endpoint, -, rfl⟩
  · simp [Json.Scalar, version]
  · trivial
  · trivial
  · trivial
  · trivial
  · exact (time time' sent).trans_lt small
  · trivial

theorem members_names_nodup (envelope : HumanChatV2) : (envelope.members.map Prod.fst).Nodup := by
  obtain ⟨v, kind, id, text, replyTo, sentAtMs, fromEndpoint⟩ := envelope
  cases replyTo <;> cases sentAtMs <;> cases fromEndpoint <;> simp [members]

theorem parseOptional_map {α : Type} {parse : Json → Except EnvelopeError α} {write : α → Json}
    {value : Option α} (reads : ∀ item ∈ value, parse (write item) = .ok item) :
    parseOptional parse (value.map write) = .ok value := by
  cases value with
  | none => rfl
  | some item =>
    rw [Option.map_some, parseOptional, reads item rfl]
    rfl

theorem parseId_string {field id : String} (canonical : isCanonicalId id = true) :
    parseId field (.string id) = .ok id := by
  simp [parseId, okOr, Json.asStr, Option.filter, canonical]

theorem parseSentAt_unsigned (within : time ≤ maxSentAtMs) :
    parseSentAt (.unsigned time) = .ok time := by
  simp [parseSentAt, okOr, Json.asU64, Option.filter, within]

theorem parseFromEndpoint_string (endpoint : EndpointId) :
    parseFromEndpoint (.string endpoint.asStr) = .ok endpoint := by
  simp [parseFromEndpoint, okOr, Json.asStr, EndpointId.parse_ok.mpr rfl, Except.toOption]

theorem get_members (envelope : HumanChatV2) :
    (Json.object envelope.members).get "v" = some (.unsigned envelope.v) ∧
      (Json.object envelope.members).get "kind" = some (.string "text") ∧
      (Json.object envelope.members).get "app_message_id" =
        some (.string envelope.appMessageId) ∧
      (Json.object envelope.members).get "text" = some (.string envelope.text) ∧
      (Json.object envelope.members).get "reply_to" = envelope.replyTo.map Json.string ∧
      (Json.object envelope.members).get "sent_at_ms" = envelope.sentAtMs.map Json.unsigned ∧
      (Json.object envelope.members).get "from_endpoint" =
        envelope.fromEndpoint.map fun endpoint => .string endpoint.asStr := by
  obtain ⟨v, kind, id, text, replyTo, sentAtMs, fromEndpoint⟩ := envelope
  cases replyTo <;> cases sentAtMs <;> cases fromEndpoint <;>
    simp [Json.get, members, List.lookup]

theorem parseDocument_members (valid : envelope.Valid) :
    parseDocument (.object envelope.members) = .ok envelope := by
  obtain ⟨v, kind, id, text, reply, time, endpoint⟩ := get_members envelope
  have ids : (some envelope.appMessageId).filter isCanonicalId = some envelope.appMessageId :=
    Option.filter_some_pos valid.id
  have replies : parseOptional (parseId "reply_to") (envelope.replyTo.map Json.string) =
      .ok envelope.replyTo :=
    parseOptional_map fun id known => parseId_string (valid.reply id known)
  have times : parseOptional parseSentAt (envelope.sentAtMs.map Json.unsigned) =
      .ok envelope.sentAtMs :=
    parseOptional_map fun time known => parseSentAt_unsigned (valid.time time known)
  have endpoints : parseOptional parseFromEndpoint
      (envelope.fromEndpoint.map fun endpoint => .string endpoint.asStr) =
        .ok envelope.fromEndpoint :=
    parseOptional_map fun endpoint _ => parseFromEndpoint_string endpoint
  have version : (2, MessageKind.text) = (envelope.v, envelope.kind) := by
    rw [valid.version]
  simp only [parseDocument, v, kind, id, text, reply, time, endpoint, replies, times, endpoints,
    Option.bind_some, Json.asU64, Json.asStr, ids, valid.version, okOr]
  obtain ⟨v, kind, id, text, replyTo, sentAtMs, fromEndpoint⟩ := envelope
  cases version
  rfl

theorem parse_members {text : String} (valid : envelope.Valid)
    (reads : codec.read text = .object envelope.members) : parse codec text = .ok envelope := by
  simp only [parse, reads, Json.check_flat valid.flat envelope.members_names_nodup]
  exact parseDocument_members valid

end HumanChatV2

theorem parseMediaType_raw : parseMediaType mediaTypeV2 = .ok ⟨2, .identity⟩ := by
  decide +kernel

theorem parseMediaType_compressed :
    parseMediaType (mediaTypeV2 ++ ";ce=" ++ contentEncodingBrotli) = .ok ⟨2, .brotli⟩ := by
  decide +kernel

theorem decodeText_bytesOf : decodeText (bytesOf text) = .ok text := by
  simp only [decodeText, fromUtf8_eq_some.mpr rfl]

theorem decompressBounded_eq (returns : brotli.RoundTrips raw) (within : raw.length ≤ limit) :
    decompressBounded brotli (brotli.compress raw) limit = .ok raw := by
  rw [decompressBounded, ChunkedRead.read_eq _ _ (by decide : 0 < 4096),
    ChunkedRead.Source.outcome, returns.1, returns.2, if_neg (Nat.not_lt.mpr within)]
  rfl

section Wire

variable {codec : JsonCodec} {brotli : Brotli} {envelope : HumanChatV2} {limit : Nat}

theorem decode_raw (valid : envelope.Valid) (reads : codec.RoundTrips envelope.members)
    (within : (rawForm codec envelope).length ≤ maxDecompressedBytes) :
    decode codec brotli mediaTypeV2 (rawForm codec envelope) = some envelope := by
  obtain ⟨text, written, read⟩ := reads
  have decoded : decodeEnvelopeBytes brotli (rawForm codec envelope) .identity = .ok text := by
    rw [decodeEnvelopeBytes, if_neg (Nat.not_lt.mpr within), rawForm, written]
    exact decodeText_bytesOf
  simp only [decode, parseMediaType_raw, Except.toOption, Option.bind_eq_bind, Option.bind_some,
    decoded, HumanChatV2.parse_members valid read]

theorem decode_compressed (valid : envelope.Valid) (reads : codec.RoundTrips envelope.members)
    (returns : brotli.RoundTrips (rawForm codec envelope))
    (within : (rawForm codec envelope).length ≤ maxDecompressedBytes) :
    decode codec brotli (mediaTypeV2 ++ ";ce=" ++ contentEncodingBrotli)
      (brotli.compress (rawForm codec envelope)) = some envelope := by
  obtain ⟨text, written, read⟩ := reads
  have decoded : decodeEnvelopeBytes brotli (brotli.compress (rawForm codec envelope)) .brotli =
      .ok text := by
    simp only [decodeEnvelopeBytes, decompressBounded_eq returns within]
    rw [rawForm, written]
    exact decodeText_bytesOf
  simp only [decode, parseMediaType_compressed, Except.toOption, Option.bind_eq_bind,
    Option.bind_some, decoded, HumanChatV2.parse_members valid read]

inductive Sends (codec : JsonCodec) (brotli : Brotli) (envelope : HumanChatV2) (limit : Nat) :
    Except EncodeError Encoded → Prop
  | raw (fits : (rawForm codec envelope).length ≤ limit) :
      Sends codec brotli envelope limit (.ok ⟨mediaTypeV2, rawForm codec envelope⟩)
  | overCeiling (large : limit < (rawForm codec envelope).length)
      (above : maxDecompressedBytes < (rawForm codec envelope).length) :
      Sends codec brotli envelope limit
        (.error (.overCeiling (rawForm codec envelope).length maxDecompressedBytes))
  | doesNotFit (large : limit < (rawForm codec envelope).length)
      (within : (rawForm codec envelope).length ≤ maxDecompressedBytes)
      (still : limit < (brotli.compress (rawForm codec envelope)).length) :
      Sends codec brotli envelope limit
        (.error (.doesNotFit (brotli.compress (rawForm codec envelope)).length limit))
  | compressed (large : limit < (rawForm codec envelope).length)
      (within : (rawForm codec envelope).length ≤ maxDecompressedBytes)
      (fits : (brotli.compress (rawForm codec envelope)).length ≤ limit) :
      Sends codec brotli envelope limit
        (.ok ⟨mediaTypeV2 ++ ";ce=" ++ contentEncodingBrotli,
          brotli.compress (rawForm codec envelope)⟩)

theorem encodeOutbound_sends (codec : JsonCodec) (brotli : Brotli) (envelope : HumanChatV2)
    (limit : Nat) :
    Sends codec brotli envelope limit (encodeOutbound codec brotli envelope limit) := by
  unfold encodeOutbound
  simp only
  split
  next fits => exact .raw fits
  next large =>
    have more := Nat.lt_of_not_le large
    split
    next above =>
      refine .overCeiling more (Nat.lt_of_not_le fun within => ?_)
      simp [senderMayCompress, more, within] at above
    next may =>
      have within : (rawForm codec envelope).length ≤ maxDecompressedBytes := by
        simpa [senderMayCompress, more] using may
      split
      next still => exact .doesNotFit more within still
      next fits => exact .compressed more within (Nat.le_of_not_lt fits)

/-- What is sent fits the limit and is read back as the same envelope; it goes out raw exactly
when the raw form fits, and not at all exactly when the raw form is over the ceiling or neither
form fits. -/
theorem encodeOutbound_round_trip (valid : envelope.Valid) (ceiling : limit ≤ maxDecompressedBytes)
    (reads : codec.RoundTrips envelope.members)
    (returns : brotli.RoundTrips (rawForm codec envelope)) :
    (∀ sent, encodeOutbound codec brotli envelope limit = .ok sent →
      sent.bytes.length ≤ limit ∧
        decode codec brotli sent.mediaType sent.bytes = some envelope) ∧
    (encodeOutbound codec brotli envelope limit = .ok ⟨mediaTypeV2, rawForm codec envelope⟩ ↔
      (rawForm codec envelope).length ≤ limit) ∧
    ((∃ reason, encodeOutbound codec brotli envelope limit = .error reason) ↔
      maxDecompressedBytes < (rawForm codec envelope).length ∨
        limit < (rawForm codec envelope).length ∧
          limit < (brotli.compress (rawForm codec envelope)).length) := by
  have sends := encodeOutbound_sends codec brotli envelope limit
  generalize encodeOutbound codec brotli envelope limit = result at sends
  have named : mediaTypeV2 ++ ";ce=" ++ contentEncodingBrotli ≠ mediaTypeV2 := by decide +kernel
  cases sends with
  | raw fits =>
    refine ⟨?_, iff_of_true rfl fits, iff_of_false nofun (by omega)⟩
    intro sent same
    cases same
    exact ⟨fits, decode_raw valid reads (fits.trans ceiling)⟩
  | overCeiling large above =>
    exact ⟨nofun, iff_of_false nofun (by omega), iff_of_true ⟨_, rfl⟩ (.inl above)⟩
  | doesNotFit large within still =>
    exact ⟨nofun, iff_of_false nofun (by omega), iff_of_true ⟨_, rfl⟩ (.inr ⟨large, still⟩)⟩
  | compressed large within fits =>
    refine ⟨?_, iff_of_false ?_ (by omega), iff_of_false nofun (by omega)⟩
    · intro sent same
      cases same
      exact ⟨fits, decode_compressed valid reads returns within⟩
    · intro same
      exact named (congrArg Encoded.mediaType (Except.ok.inj same))

end Wire

namespace Sample

def greeting : HumanChatV2 where
  v := 2
  kind := .text
  appMessageId := "0123456789abcdef0123456789abcdef"
  text := "hello"
  replyTo := none
  sentAtMs := some 1000
  fromEndpoint := none

def line : String :=
  "\x7b\"v\":2,\"kind\":\"text\",\"app_message_id\":\"0123456789abcdef0123456789abcdef\"," ++
    "\"text\":\"hello\",\"sent_at_ms\":1000\x7d"

/-- A flat record in `serde_json`'s compact form, for strings without a character to escape. -/
def compact (members : List (String × Json)) : String :=
  let value : Json → String := fun
    | .unsigned number => toString number
    | .string text => "\"" ++ text ++ "\""
    | _ => "null"
  "\x7b" ++ ",".intercalate (members.map fun member =>
    "\"" ++ member.1 ++ "\":" ++ value member.2) ++ "\x7d"

def codec : JsonCodec where
  toVec := fun members => bytesOf (compact members)
  read := fun text =>
    if text = line then .object greeting.members else .invalid "expected value at line 1 column 1"
  located := fun _ message => message ++ " at line 1 column 1"

/-- Brotli that stores: a window of 16 bits, one uncompressed block of up to 65536 bytes, and an
empty last block. -/
def brotli : Brotli where
  compress := fun raw =>
    let header := BitVec.ofNat 24 ((raw.length - 1) * 16 + 2 ^ 20)
    [header, header >>> 8, header >>> 16].map (fun part => UInt8.ofNat part.toNat) ++ (raw ++ [3])
  decompressor := fun input => ⟨(input.drop 3).dropLast, true, fun _ _ => 64⟩

end Sample

open Sample in
/-- The record goes out raw when a frame holds it and is refused when none of its forms fits. -/
theorem encodeOutbound_round_trip_sample :
    encodeOutbound codec brotli greeting 256 = .ok ⟨mediaTypeV2, bytesOf line⟩ ∧
      decode codec brotli mediaTypeV2 (bytesOf line) = some greeting ∧
      ∃ reason, encodeOutbound codec brotli greeting 64 = .error reason := by
  have valid : greeting.Valid := ⟨rfl, by decide +kernel, nofun, by decide⟩
  have text : rawForm codec greeting = bytesOf line := by decide +kernel
  have reads : codec.RoundTrips greeting.members := ⟨line, text, by simp [codec]⟩
  have returns : brotli.RoundTrips (rawForm codec greeting) := by
    simp [Brotli.RoundTrips, brotli]
  have sent : encodeOutbound codec brotli greeting 256 = .ok ⟨mediaTypeV2, bytesOf line⟩ := by
    decide +kernel
  exact ⟨sent, ((encodeOutbound_round_trip valid (by decide) reads returns).1 _ sent).2,
    (encodeOutbound_round_trip valid (by decide) reads returns).2.2.mpr
      (.inr (by decide +kernel))⟩

end InterWeave.Chat
