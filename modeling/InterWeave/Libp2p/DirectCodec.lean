import InterWeave.Api.DirectV2

/-!
`transport-libp2p::direct_codec`: the bounded read of a request and the parse behind admission.
A cut read is answered as the whole of it would have been.
-/

namespace InterWeave

open Wire DirectMessageV2

variable {α : Type} {limit : Nat} (field : String)

def maxRequestBytes : Nat :=
  16 + 8 + 1 + EndpointId.maxBytes + 1 + EndpointId.maxBytes + 1 + maxMediaTypeBytes
    + 4 + maxPayloadBytes

def readBoundedOrOversize (sent : List UInt8) (limit : Nat) : List UInt8 × Bool :=
  let buffer := sent.take (limit + 1)
  (buffer, decide (buffer.length > limit))

def recoverId (bytes : List UInt8) : Option MessageId :=
  if enough : 16 ≤ bytes.length then some ⟨bytes.take 16, by simpa using enough⟩ else none

def parseInbound (bytes : List UInt8) (oversize : Bool) (maxPayloadBytes : Nat) :
    Except (Option MessageId × DirectRejectReason) DirectMessageV2 :=
  if oversize then
    let reason :=
      match declaredPayloadLen bytes with
      | .ok declared =>
        if declared > maxPayloadBytes then DirectRejectReason.tooLarge else .malformed
      | .error _ => .malformed
    .error (recoverId bytes, reason)
  else
    (decode bytes maxPayloadBytes).mapError fun error => (recoverId bytes, error.toWire)

section Header

def Coarse (error : FrameError) : Prop := error.toWire = .malformed

theorem take_coarse : (Cursor.take field len).Fails Coarse :=
  Reader.fails_take (fun available => show Coarse (.truncated field len available) from rfl)

theorem takeU8_coarse : (Cursor.takeU8 field).Fails Coarse :=
  (take_coarse field).bind fun _ => Reader.fails_ret

theorem ceiling_coarse {got max : Nat} : (Reader.lift (ceiling field got max)).Fails Coarse := by
  refine Reader.fails_lift fun error refused => ?_
  unfold ceiling at refused
  split at refused
  · cases refused
    rfl
  · cases refused

theorem checkText_coarse {ε : Type} {notText : FrameError} {parse : String → Except ε α}
    {wrap : ε → FrameError} (first : Coarse notText) (wrapped : ∀ error, Coarse (wrap error))
    {raw : List UInt8} {error : FrameError}
    (refused : checkText notText parse wrap raw = .error error) : Coarse error := by
  unfold checkText at refused
  split at refused
  · cases refused
    exact first
  next text read =>
    cases parsed : parse text with
    | error own =>
      rw [parsed] at refused
      cases refused
      exact wrapped own
    | ok value =>
      rw [parsed] at refused
      cases refused

section

variable {check : List UInt8 → Except FrameError α}
  (checks : ∀ raw error, check raw = .error error → Coarse error)

include checks

theorem takeLabelled_coarse (field : String) {len max : Nat} :
    (takeLabelled field len max check).Fails Coarse :=
  (ceiling_coarse field).bind fun _ =>
    (take_coarse field).bind fun raw => Reader.fails_lift (checks raw)

theorem takeOptional_coarse (lenField field : String) (max : Nat) :
    (takeOptional lenField field max check).Fails Coarse := by
  refine (takeU8_coarse lenField).bind fun len => ?_
  split
  · exact Reader.fails_ret
  · exact (takeLabelled_coarse checks field).bind fun _ => Reader.fails_ret

end

theorem endpoint_coarse (raw : List UInt8) (error : FrameError)
    (refused : endpoint field raw = .error error) : Coarse error := by
  unfold endpoint at refused
  exact checkText_coarse (by rfl) (by intro own; rfl) refused

theorem media_coarse (raw : List UInt8) (error : FrameError)
    (refused : media raw = .error error) : Coarse error := by
  unfold media at refused
  exact checkText_coarse (by rfl) (by intro own; rfl) refused

theorem takeMessageId_coarse : takeMessageId.Fails Coarse := by
  intro input error failed
  unfold takeMessageId at failed
  split at failed
  · cases failed
    rfl
  · cases failed

theorem takeSource_coarse : takeSource.Fails Coarse := by
  refine (takeU8_coarse _).bind fun len => ?_
  split
  · refine Reader.fails_lift fun error refused => ?_
    cases refused
    rfl
  · exact takeLabelled_coarse (endpoint_coarse _) _

theorem parseHeader_coarse : parseHeader.Fails Coarse :=
  takeMessageId_coarse.bind fun _ =>
    (take_coarse _).bind fun _ =>
      takeSource_coarse.bind fun _ =>
        (takeOptional_coarse (endpoint_coarse _) _ _ _).bind fun _ =>
          (takeOptional_coarse media_coarse _ _ _).bind fun _ =>
            (take_coarse _).bind fun _ => Reader.fails_ret

theorem takeU8_within : (Cursor.takeU8 field).Within 1 :=
  (Reader.within_take (Nat.le_refl 1)).bind fun _ => Reader.within_ret

theorem takeLabelled_within {check : List UInt8 → Except FrameError α} (field : String)
    {len max : Nat} : (takeLabelled field len max check).Within max := by
  by_cases large : len > max
  · intro input more _
    have refused : ∀ buffer, takeLabelled field len max check buffer =
        .error (.declaredTooLong field len max) := by
      intro buffer
      unfold takeLabelled ceiling
      rw [if_pos large]
      rfl
    rw [refused]
    exact refused _
  · have rest : ((Cursor.take field len) >>= fun raw => Reader.lift (check raw)).Within max :=
      (Reader.within_take (Nat.not_lt.mp large)).bind fun _ => Reader.within_lift
    exact (Reader.within_lift.bind fun _ => rest).mono (by omega)

theorem takeOptional_within {check : List UInt8 → Except FrameError α} (field : String)
    {max : Nat} :
    (takeOptional lenField field max check).Within (1 + max) := by
  refine (takeU8_within lenField).bind fun len => ?_
  split
  · exact Reader.within_ret.mono (Nat.zero_le max)
  · exact (takeLabelled_within field).bind fun _ => Reader.within_ret

theorem takeSource_within : takeSource.Within (1 + EndpointId.maxBytes) := by
  refine (takeU8_within _).bind fun len => ?_
  split
  · exact Reader.within_lift.mono (Nat.zero_le _)
  · exact takeLabelled_within _

theorem takeMessageId_within : takeMessageId.Within 16 := by
  intro input more enough
  have here : ¬16 > input.length := by omega
  have there : ¬16 > (input ++ more).length := by simp; omega
  simp only [takeMessageId, dif_neg here, dif_neg there]
  refine ⟨?_, by simp; omega⟩
  simp only [List.take_append_of_le_length enough, List.drop_append_of_le_length enough]

def maxHeaderBytes : Nat := maxRequestBytes - maxPayloadBytes

theorem parseHeader_within : parseHeader.Within maxHeaderBytes := by
  refine Reader.Within.mono ?_ (show 16 + (8 + ((1 + EndpointId.maxBytes) +
    ((1 + EndpointId.maxBytes) + ((1 + maxMediaTypeBytes) + (4 + 0))))) ≤ maxHeaderBytes by decide)
  exact takeMessageId_within.bind fun _ =>
    (Reader.within_take (Nat.le_refl 8)).bind fun _ =>
      takeSource_within.bind fun _ =>
        (takeOptional_within _).bind fun _ =>
          (takeOptional_within _).bind fun _ =>
            (Reader.within_take (Nat.le_refl 4)).bind fun _ => Reader.within_ret

end Header

theorem decode_long {header : DirectHeaderV2} (within : limit ≤ maxPayloadBytes)
    (parsed : parseHeader buffer = .ok (header, rest)) (long : maxPayloadBytes < rest.length) :
    (decode buffer limit).mapError FrameError.toWire =
      .error (if header.declaredPayloadLen > limit then .tooLarge else .malformed) := by
  by_cases large : header.declaredPayloadLen > limit
  · have most : min limit maxPayloadBytes = limit := Nat.min_eq_left within
    have refused : takeMessage limit buffer =
        .error (.payloadTooLarge header.declaredPayloadLen limit) := by
      unfold takeMessage
      rw [Reader.bind_run parsed]
      refine Reader.bind_error ?_
      unfold takePayload
      rw [most, if_pos large]
      rfl
    rw [if_pos large, decode, refused]
    rfl
  · have short : header.declaredPayloadLen ≤ rest.length := by omega
    have bounded : (rest.take header.declaredPayloadLen).length ≤ maxPayloadBytes := by
      rw [List.length_take]
      omega
    let payload : Payload := ⟨header.mediaType, rest.take header.declaredPayloadLen, bounded⟩
    have paid : takePayload header limit rest =
        .ok (payload, rest.drop header.declaredPayloadLen) := by
      have whole : payload.bytes.length = header.declaredPayloadLen := by
        change (rest.take header.declaredPayloadLen).length = _
        rw [List.length_take]
        omega
      exact takePayload_ok.mpr ⟨(List.take_append_drop _ _).symm, rfl, whole, by omega⟩
    have left : (rest.drop header.declaredPayloadLen).length > 0 := by
      rw [List.length_drop]
      omega
    rw [if_neg large, decode, takeMessage, Reader.bind_run parsed, Reader.bind_run paid]
    simp only [Pure.pure, Reader.ret, if_pos left]
    rfl

theorem decode_header_error (parsed : parseHeader buffer = .error error) :
    (decode buffer limit).mapError FrameError.toWire = .error .malformed := by
  rw [decode, takeMessage, Reader.bind_error parsed]
  exact congrArg Except.error (parseHeader_coarse buffer error parsed)

theorem parseInbound_oversize (more : List UInt8) (within : limit ≤ maxPayloadBytes)
    (long : maxRequestBytes < kept.length) :
    (parseInbound kept true limit).mapError Prod.snd =
      (decode (kept ++ more) limit).mapError FrameError.toWire := by
  have room : maxHeaderBytes + maxPayloadBytes = maxRequestBytes := by decide
  have cut := parseHeader_within kept more (by omega)
  unfold parseInbound declaredPayloadLen
  cases parsed : parseHeader kept with
  | error error =>
    rw [parsed] at cut
    rw [decode_header_error cut]
    rfl
  | ok answer =>
    obtain ⟨header, rest⟩ := answer
    rw [parsed] at cut
    obtain ⟨whole, used⟩ := cut
    rw [decode_long within whole (by rw [List.length_append]; omega)]
    rfl

theorem parseInbound_id (oversize : Bool) (limit : Nat) (enough : 16 ≤ bytes.length) :
    match parseInbound bytes oversize limit with
    | .ok message => message.messageId.bytes = bytes.take 16
    | .error (echoed, _) => echoed.map MessageId.bytes = some (bytes.take 16) := by
  have recovered : (recoverId bytes).map MessageId.bytes = some (bytes.take 16) := by
    rw [recoverId, dif_pos enough]
    rfl
  unfold parseInbound
  cases oversize with
  | true => exact recovered
  | false =>
    cases decoded : decode bytes limit with
    | error error => exact recovered
    | ok message =>
      obtain ⟨rfl, _⟩ := decode_ok.mp decoded
      change message.messageId.bytes = message.encode.take 16
      have length := message.messageId.length
      simp only [encode, List.append_assoc, List.take_left' length]

theorem oversize_answered_as_whole (sent : List UInt8) (limit : Nat)
    (within : limit ≤ maxPayloadBytes) :
    let (bytes, oversize) := readBoundedOrOversize sent maxRequestBytes
    bytes = sent.take (min sent.length (maxRequestBytes + 1)) ∧
    (parseInbound bytes oversize limit).mapError Prod.snd =
      (decode sent limit).mapError FrameError.toWire ∧
    (16 ≤ sent.length →
      match parseInbound bytes oversize limit with
      | .ok message => message.messageId.bytes = sent.take 16
      | .error (echoed, _) => echoed.map MessageId.bytes = some (sent.take 16)) := by
  have kept : sent.take (maxRequestBytes + 1) = sent.take (min sent.length (maxRequestBytes + 1)) :=
    by rw [List.take_eq_take_iff]; omega
  have start : (sent.take (maxRequestBytes + 1)).take 16 = sent.take 16 := by
    rw [List.take_take]
    rfl
  refine ⟨kept, ?_, fun enough => ?_⟩
  · by_cases long : maxRequestBytes < (sent.take (maxRequestBytes + 1)).length
    · have split := List.take_append_drop (maxRequestBytes + 1) sent
      have answered := parseInbound_oversize (sent.drop (maxRequestBytes + 1)) within long
      rw [split] at answered
      simpa only [long, decide_true] using answered
    · have all : sent.take (maxRequestBytes + 1) = sent := by
        rw [List.length_take] at long
        exact List.take_of_length_le (by omega)
      simp only [all] at long ⊢
      simp only [long, decide_false, parseInbound]
      cases decode sent limit with
      | error error => rfl
      | ok message => rfl
  · have room : 16 ≤ maxRequestBytes := by decide
    have long : 16 ≤ (sent.take (maxRequestBytes + 1)).length := by
      rw [List.length_take]
      omega
    have echoed := parseInbound_id (decide ((sent.take (maxRequestBytes + 1)).length >
      maxRequestBytes)) limit long
    rw [start] at echoed
    exact echoed

theorem oversize_answered_as_whole_sample :
    let sent := sample.encode ++ List.replicate 60000 0
    let (bytes, oversize) := readBoundedOrOversize sent maxRequestBytes
    (parseInbound bytes oversize 64).mapError Prod.snd =
      (decode sent 64).mapError FrameError.toWire :=
  (oversize_answered_as_whole (sample.encode ++ List.replicate 60000 0) 64 (by decide)).2.1

end InterWeave
