import InterWeave.Api.DirectV2Core

/-!
The decoder accepts exactly what the encoder writes: one buffer for every message that fits.
-/

namespace InterWeave

open Wire

variable {value : String}

theorem fromUtf8_eq_some : fromUtf8 raw = some text ↔ bytesOf text = raw := by
  unfold fromUtf8 String.fromUTF8? bytesOf
  constructor
  · intro read
    split at read
    · cases read
      rfl
    · cases read
  · rintro rfl
    rw [dif_pos text.isValidUTF8]
    rfl

theorem EndpointId.parse_ok : EndpointId.parse value = .ok endpoint ↔ endpoint.asStr = value := by
  unfold EndpointId.parse
  constructor
  · intro parsed
    split at parsed
    · cases parsed
    · cases parsed
      rfl
  · rintro rfl
    split
    next error refused => rw [endpoint.valid] at refused; cases refused
    · rfl

theorem MediaType.parse_ok : MediaType.parse value = .ok mediaType ↔ mediaType.asStr = value := by
  unfold MediaType.parse
  constructor
  · intro parsed
    split at parsed
    · cases parsed
    · cases parsed
      rfl
  · rintro rfl
    split
    next error refused => rw [mediaType.valid] at refused; cases refused
    · rfl

theorem checkLabel_ok (valid : checkLabel maxBytes leading ok value = .ok ()) :
    bytesOf value ≠ [] ∧ (bytesOf value).length ≤ maxBytes := by
  unfold checkLabel at valid
  split at valid
  · cases valid
  next first rest same =>
    rw [same]
    refine ⟨by simp, ?_⟩
    split at valid
    · cases valid
    · omega

theorem toNat_lenU8 (short : len ≤ 255) : (lenU8 len).toNat = len := by
  unfold lenU8
  rw [UInt8.toNat_ofNat']
  omega

theorem lenU8_ne_zero (present : bytes ≠ []) (len : (lenU8 bytes.length).toNat = bytes.length) :
    lenU8 bytes.length ≠ 0 := by
  intro zero
  rw [zero] at len
  exact present (List.length_eq_zero_iff.mp len.symm)

theorem lenU8_toNat (len : UInt8) : lenU8 len.toNat = len := by
  apply UInt8.toNat_inj.mp
  have small : len.toNat < 256 := len.toNat_lt
  exact toNat_lenU8 (by omega)

open Reader

theorem Cursor.takeU8_ok : Cursor.takeU8 field input = .ok (byte, rest) ↔ input = byte :: rest := by
  unfold Cursor.takeU8 Cursor.take
  rw [bind_ok]
  constructor
  · rintro ⟨slice, middle, taken, same⟩
    obtain ⟨one, rfl⟩ := take_ok.mp taken
    obtain ⟨only, rfl⟩ := List.length_eq_one_iff.mp one
    cases same
    rfl
  · rintro rfl
    exact ⟨[byte], rest, take_ok.mpr ⟨rfl, rfl⟩, rfl⟩

namespace DirectMessageV2

variable {limit : Nat} {input rest : List UInt8}

/-- A field's check accepts the bytes its values print as, and only those. -/
structure Printed {α : Type} (check : List UInt8 → Except FrameError α)
    (print : α → List UInt8) (max : Nat) : Prop where
  accepts : ∀ raw value, check raw = .ok value ↔ print value = raw
  present : ∀ value, print value ≠ []
  bounded : ∀ value, (print value).length ≤ max
  small : max ≤ 255

theorem checkText_ok {ε α : Type} {parse : String → Except ε α} {wrap : ε → FrameError}
    {asStr : α → String} (parses : ∀ {text value}, parse text = .ok value ↔ asStr value = text)
    {value : α} : checkText notText parse wrap raw = .ok value ↔ bytesOf (asStr value) = raw := by
  have wrapped : ∀ text, (parse text).mapError wrap = .ok value ↔ parse text = .ok value := by
    intro text
    cases parse text with
    | error error => simp [Except.mapError]
    | ok read => simp [Except.mapError]
  unfold checkText
  constructor
  · intro accepted
    split at accepted
    · cases accepted
    next text read => rw [parses.mp ((wrapped text).mp accepted), fromUtf8_eq_some.mp read]
  · intro printed
    rw [fromUtf8_eq_some.mpr printed]
    exact (wrapped _).mpr (parses.mpr rfl)

theorem endpoint_printed (field : String) :
    Printed (endpoint field) (fun label => bytesOf label.asStr) EndpointId.maxBytes where
  accepts _ _ := checkText_ok EndpointId.parse_ok
  present label := (checkLabel_ok label.valid).1
  bounded label := (checkLabel_ok label.valid).2
  small := by decide

theorem media_printed :
    Printed media (fun mediaType => bytesOf mediaType.asStr) maxMediaTypeBytes where
  accepts _ _ := checkText_ok MediaType.parse_ok
  present mediaType := (MediaType.check_ok mediaType.valid).1
  bounded mediaType := (MediaType.check_ok mediaType.valid).2.1
  small := by decide

section Field

variable {α : Type} {check : List UInt8 → Except FrameError α} {print : α → List UInt8} {max : Nat}

theorem takeLabelled_ok (printed : Printed check print max) {value : α} :
    takeLabelled field len max check input = .ok (value, rest) ↔
      (print value).length = len ∧ input = print value ++ rest := by
  unfold takeLabelled Cursor.take
  simp only [bind_ok, lift_ok, take_ok, printed.accepts, ceiling]
  constructor
  · rintro ⟨_, _, ⟨_, rfl⟩, _, _, ⟨whole, rfl⟩, rfl, rfl⟩
    exact ⟨whole, rfl⟩
  · rintro ⟨rfl, rfl⟩
    have fits : ¬(print value).length > max := Nat.not_lt.mpr (printed.bounded value)
    exact ⟨(), _, ⟨if_neg fits, rfl⟩, print value, rest, ⟨rfl, rfl⟩, rfl, rfl⟩

theorem takeOptional_ok (printed : Printed check print max) {value : Option α} :
    takeOptional lenField field max check input = .ok (value, rest) ↔
      input = lenU8 (value.elim [] print).length :: (value.elim [] print ++ rest) := by
  unfold takeOptional
  simp only [bind_ok, Cursor.takeU8_ok]
  constructor
  · rintro ⟨len, middle, rfl, read⟩
    split at read
    next absent =>
      cases read
      rw [absent]
      rfl
    next present =>
      obtain ⟨taken, left, labelled, same⟩ := bind_ok.mp read
      obtain ⟨whole, rfl⟩ := (takeLabelled_ok printed).mp labelled
      cases same
      simp [whole, lenU8_toNat]
  · rintro rfl
    cases value with
    | none => exact ⟨0, rest, rfl, rfl⟩
    | some value =>
      have len := toNat_lenU8 ((printed.bounded value).trans printed.small)
      refine ⟨lenU8 (print value).length, print value ++ rest, rfl, ?_⟩
      rw [if_neg (lenU8_ne_zero (printed.present value) len), bind_ok]
      exact ⟨value, rest, (takeLabelled_ok printed).mpr ⟨len.symm, rfl⟩, rfl⟩

end Field

theorem takeSource_ok :
    takeSource input = .ok (label, rest) ↔
      input = lenU8 (bytesOf label.asStr).length :: (bytesOf label.asStr ++ rest) := by
  have printed := endpoint_printed "source_endpoint"
  unfold takeSource
  simp only [bind_ok, Cursor.takeU8_ok]
  constructor
  · rintro ⟨len, middle, rfl, read⟩
    split at read
    · cases read
    · obtain ⟨whole, rfl⟩ := (takeLabelled_ok printed).mp read
      simp only [whole, lenU8_toNat]
  · rintro rfl
    have len := toNat_lenU8 ((printed.bounded label).trans printed.small)
    refine ⟨_, _, rfl, ?_⟩
    rw [if_neg (lenU8_ne_zero (printed.present label) len)]
    exact (takeLabelled_ok printed).mpr ⟨len.symm, rfl⟩

theorem takeMessageId_ok {messageId : MessageId} :
    takeMessageId input = .ok (messageId, rest) ↔ input = messageId.bytes ++ rest := by
  have length := messageId.length
  unfold takeMessageId
  constructor
  · intro read
    split at read
    · cases read
    · cases read
      exact (List.take_append_drop 16 input).symm
  · rintro rfl
    rw [dif_neg (by simp; omega)]
    simp only [List.take_left' length, List.drop_left' length]

def headerBytes (header : DirectHeaderV2) : List UInt8 :=
  let source := bytesOf header.sourceEndpoint.asStr
  let destination := labelBytes header.destinationEndpoint
  let media := mediaBytes header.mediaType
  header.messageId.bytes ++ beBytes 8 header.sentAtMs.toNat
    ++ [lenU8 source.length] ++ source
    ++ [lenU8 destination.length] ++ destination
    ++ [lenU8 media.length] ++ media
    ++ beBytes 4 header.declaredPayloadLen

theorem parseHeader_ok :
    parseHeader input = .ok (header, rest) ↔
      input = headerBytes header ++ rest ∧ header.declaredPayloadLen < 2 ^ 32 := by
  unfold parseHeader takeDestination takeMedia Cursor.take
  simp only [bind_ok, takeMessageId_ok, take_ok, takeSource_ok,
    takeOptional_ok (endpoint_printed _), takeOptional_ok media_printed]
  constructor
  · rintro ⟨messageId, _, rfl, sentAtMs, _, ⟨eight, rfl⟩, source, _, rfl, destination, _, rfl,
      mediaType, _, rfl, declared, _, ⟨four, rfl⟩, same⟩
    cases same
    have sent : fromBe sentAtMs < 2 ^ 64 := by simpa [eight] using fromBe_lt sentAtMs
    have written : beBytes 8 (UInt64.ofNat (fromBe sentAtMs)).toNat = sentAtMs := by
      rw [UInt64.toNat_ofNat_of_lt' sent, ← eight, beBytes_fromBe]
    have counted : beBytes 4 (fromBe declared) = declared := by rw [← four, beBytes_fromBe]
    refine ⟨?_, by simpa [four] using fromBe_lt declared⟩
    simp only [headerBytes, written, counted, labelBytes, mediaBytes, List.append_assoc,
      List.nil_append, List.cons_append]
  · rintro ⟨rfl, fits⟩
    refine ⟨header.messageId, _, ?_, beBytes 8 header.sentAtMs.toNat, _,
      ⟨length_beBytes, rfl⟩, header.sourceEndpoint, _, rfl, header.destinationEndpoint, _, rfl,
      header.mediaType, _, rfl, beBytes 4 header.declaredPayloadLen, rest, ⟨length_beBytes, rfl⟩,
      ?_⟩
    · simp [headerBytes, labelBytes, mediaBytes]
    · have counted : fromBe (beBytes 4 header.declaredPayloadLen) = header.declaredPayloadLen :=
        fromBe_beBytes fits
      have sent : fromBe (beBytes 8 header.sentAtMs.toNat) = header.sentAtMs.toNat :=
        fromBe_beBytes header.sentAtMs.toNat_lt
      rw [counted, sent, UInt64.ofNat_toNat]
      rfl

theorem takePayload_ok {payload : Payload} :
    takePayload header limit input = .ok (payload, rest) ↔
      input = payload.bytes ++ rest ∧ payload.mediaType = header.mediaType ∧
        payload.bytes.length = header.declaredPayloadLen ∧
        payload.bytes.length ≤ min limit maxPayloadBytes := by
  unfold takePayload
  by_cases large : header.declaredPayloadLen > min limit maxPayloadBytes
  · simp only [if_pos large, lift_ok]
    constructor
    · rintro ⟨refused, _⟩
      cases refused
    · rintro ⟨_, _, whole, within⟩
      omega
  · simp only [if_neg large, bind_ok, lift_ok, Cursor.take, take_ok]
    constructor
    · rintro ⟨bytes, _, ⟨whole, rfl⟩, made, rfl⟩
      rw [Payload.new, dif_neg (by omega)] at made
      cases made
      exact ⟨rfl, rfl, whole, by change bytes.length ≤ _; omega⟩
    · rintro ⟨rfl, typed, whole, within⟩
      refine ⟨payload.bytes, rest, ⟨whole, rfl⟩, ?_, rfl⟩
      rw [Payload.new, dif_neg (by omega), ← typed]
      rfl

def header (message : DirectMessageV2) : DirectHeaderV2 where
  messageId := message.messageId
  sentAtMs := message.sentAtMs
  sourceEndpoint := message.sourceEndpoint
  destinationEndpoint := message.destinationEndpoint
  mediaType := message.payload.mediaType
  declaredPayloadLen := message.payload.bytes.length

theorem encode_eq (message : DirectMessageV2) :
    message.encode = headerBytes message.header ++ message.payload.bytes := by
  have bounded : message.payload.bytes.length ≤ 49152 := message.payload.bounded
  have exact : min message.payload.bytes.length (2 ^ 32 - 1) = message.payload.bytes.length := by
    omega
  unfold encode
  simp only [exact]
  rfl

theorem parseHeader_encode (message : DirectMessageV2) (more : List UInt8) :
    parseHeader (message.encode ++ more) = .ok (message.header, message.payload.bytes ++ more) := by
  have bounded : message.payload.bytes.length ≤ 49152 := message.payload.bounded
  refine parseHeader_ok.mpr ⟨by rw [encode_eq, List.append_assoc], ?_⟩
  change message.payload.bytes.length < 2 ^ 32
  omega

theorem takeMessage_ok :
    takeMessage limit input = .ok (message, rest) ↔
      input = message.encode ++ rest ∧
        message.payload.bytes.length ≤ min limit maxPayloadBytes := by
  unfold takeMessage
  simp only [bind_ok, takePayload_ok]
  constructor
  · rintro ⟨head, _, parsed, payload, _, ⟨rfl, typed, whole, within⟩, same⟩
    obtain ⟨rfl, fits⟩ := parseHeader_ok.mp parsed
    obtain ⟨messageId, sentAtMs, source, destination, mediaType, declared⟩ := head
    cases typed
    cases whole
    cases same
    exact ⟨by rw [encode_eq, List.append_assoc]; rfl, within⟩
  · rintro ⟨rfl, within⟩
    exact ⟨message.header, _, parseHeader_encode message rest, message.payload, rest,
      ⟨rfl, rfl, rfl, within⟩, rfl⟩

theorem decode_ok :
    decode buffer limit = .ok message ↔
      buffer = message.encode ∧ message.payload.bytes.length ≤ min limit maxPayloadBytes := by
  unfold decode
  constructor
  · intro decoded
    split at decoded
    · cases decoded
    next read left taken =>
      split at decoded
      · cases decoded
      next ended =>
        cases decoded
        have nothing : left = [] := by simpa using ended
        simpa [nothing] using takeMessage_ok.mp taken
  · rintro ⟨rfl, within⟩
    have taken : takeMessage limit message.encode = .ok (message, []) :=
      takeMessage_ok.mpr ⟨by simp, within⟩
    rw [taken]
    rfl

theorem encode_append_ne {first second : DirectMessageV2} (nonempty : more ≠ []) :
    first.encode ++ more ≠ second.encode := by
  intro same
  have once := parseHeader_encode first more
  have again := parseHeader_encode second []
  rw [same, ← List.append_nil second.encode, again] at once
  injection once with once
  injection once with heads payloads
  have lengths : second.payload.bytes.length = first.payload.bytes.length :=
    congrArg DirectHeaderV2.declaredPayloadLen heads
  have counted := congrArg List.length payloads
  simp only [List.append_nil, List.length_append] at counted
  exact nonempty (List.length_eq_zero_iff.mp (by omega))

theorem decode_refuses (never : ∀ message : DirectMessageV2, buffer ≠ message.encode) :
    ∃ error, decode buffer limit = .error error := by
  cases decoded : decode buffer limit with
  | error error => exact ⟨error, rfl⟩
  | ok message => exact absurd (decode_ok.mp decoded).1 (never message)

theorem frame_codec_canonical :
    (∀ (message : DirectMessageV2) (limit : Nat),
      message.payload.bytes.length ≤ min limit maxPayloadBytes →
        decode message.encode limit = .ok message) ∧
    (∀ (buffer : List UInt8) (limit : Nat) (message : DirectMessageV2),
      decode buffer limit = .ok message →
        message.encode = buffer ∧ message.payload.bytes.length ≤ min limit maxPayloadBytes) ∧
    (∀ (first second : List UInt8) (limit other : Nat) (message : DirectMessageV2),
      decode first limit = .ok message → decode second other = .ok message → first = second) ∧
    ∀ (buffer more : List UInt8) (limit other : Nat) (message : DirectMessageV2), more ≠ [] →
      (decode buffer limit = .ok message → ∃ error, decode (buffer ++ more) other = .error error) ∧
      (decode (buffer ++ more) limit = .ok message →
        ∃ error, decode buffer other = .error error) := by
  refine ⟨?_, ?_, ?_, ?_⟩
  · intro message limit within
    exact decode_ok.mpr ⟨rfl, within⟩
  · intro buffer limit message decoded
    obtain ⟨rfl, within⟩ := decode_ok.mp decoded
    exact ⟨rfl, within⟩
  · intro first second limit other message once again
    rw [(decode_ok.mp once).1, (decode_ok.mp again).1]
  · intro buffer more limit other message nonempty
    constructor
    · intro decoded
      rw [(decode_ok.mp decoded).1]
      exact decode_refuses fun longer => encode_append_ne nonempty
    · intro decoded
      have whole := (decode_ok.mp decoded).1
      refine decode_refuses fun shorter cut => ?_
      rw [cut] at whole
      exact encode_append_ne nonempty whole

def sample : DirectMessageV2 where
  messageId := ⟨List.replicate 16 7, rfl⟩
  sentAtMs := 1000
  sourceEndpoint := ⟨"chat", by decide⟩
  destinationEndpoint := none
  payload := ⟨some ⟨"text/plain", by decide⟩, [104, 105], by decide⟩

theorem frame_codec_canonical_sample :
    decode sample.encode 64 = .ok sample ∧
      (∃ error, decode (sample.encode ++ [0]) 64 = .error error) ∧
      ∃ error, decode (sample.encode.take 40) 64 = .error error := by
  have read := frame_codec_canonical.1 sample 64 (by decide)
  have refused := frame_codec_canonical.2.2.2
  have rejoined : sample.encode.take 40 ++ sample.encode.drop 40 = sample.encode :=
    List.take_append_drop 40 _
  refine ⟨read, (refused _ [0] 64 64 sample (by decide)).1 read, ?_⟩
  exact (refused _ (sample.encode.drop 40) 64 64 sample (by decide)).2 (by rw [rejoined, read])

end DirectMessageV2

end InterWeave
