import InterWeave.Api.DirectV2
import InterWeave.Ipc.FramingCore

/-!
Frames come out of the reader as they went in, however the stream was cut.
-/

namespace InterWeave.Ipc

open Wire

variable {json : SerdeJson}

variable {len : Nat} {buffer : List UInt8} {body : String}

theorem encodeFrame_ok :
    encodeFrame json body = .ok frame ↔
      frame = beBytes lengthPrefixBytes (bytesOf body).length ++ bytesOf body ∧
        0 < (bytesOf body).length ∧ (bytesOf body).length ≤ maxBodyBytes ∧
        checkBody json body = .ok () := by
  unfold encodeFrame
  simp only [List.isEmpty_iff_length_eq_zero]
  constructor
  · intro encoded
    split at encoded
    · cases encoded
    next nonempty =>
      split at encoded
      · cases encoded
      next within =>
        split at encoded
        · cases encoded
        next checked =>
          split at encoded
          · cases encoded
          · cases encoded
            exact ⟨rfl, by omega, by omega, checked⟩
  · rintro ⟨rfl, nonempty, within, checked⟩
    have small : (bytesOf body).length < 2 ^ 32 := by unfold maxBodyBytes at within; omega
    rw [if_neg (by omega), if_neg (by omega), checked]
    exact if_neg (by omega)

theorem bodyText_ok :
    bodyText json raw = .ok body ↔ bytesOf body = raw ∧ checkBody json body = .ok () := by
  unfold bodyText
  constructor
  · intro read
    split at read
    · cases read
    next text known =>
      cases checked : checkBody json text with
      | error error => rw [checked] at read; cases read
      | ok _ =>
        rw [checked] at read
        cases read
        exact ⟨fromUtf8_eq_some.mp known, checked⟩
  · rintro ⟨printed, checked⟩
    rw [fromUtf8_eq_some.mpr printed]
    simp only [checked]
    rfl

open Reader

theorem takeOr_short (few : input.length < len) :
    takeOr len input = .error (.incomplete (len - input.length)) :=
  take_short few

theorem takeOr_append (whole : bytes.length = len) (rest : List UInt8) :
    takeOr len (bytes ++ rest) = .ok (bytes, rest) :=
  take_ok.mpr ⟨whole, rfl⟩

theorem fromBe_body (within : len ≤ maxBodyBytes) :
    fromBe (beBytes lengthPrefixBytes len) = len := by
  refine fromBe_beBytes ?_
  unfold maxBodyBytes at within
  unfold lengthPrefixBytes
  omega

theorem takeFrame_ok :
    takeFrame json buffer = .ok (decoded, rest) ↔
      ∃ frame, encodeFrame json decoded.body = .ok frame ∧ buffer = frame ++ rest ∧
        decoded.consumed = frame.length := by
  unfold takeFrame takeOr
  simp only [bind_ok, take_ok, encodeFrame_ok]
  constructor
  · rintro ⟨raw, _, ⟨four, rfl⟩, read⟩
    split at read
    · cases read
    next nonzero =>
      split at read
      · cases read
      next within =>
        simp only [bind_ok, take_ok, lift_ok, bodyText_ok] at read
        obtain ⟨body, _, ⟨whole, rfl⟩, text, _, ⟨⟨rfl, checked⟩, rfl⟩, same⟩ := read
        cases same
        have counted : beBytes lengthPrefixBytes (bytesOf text).length = raw := by
          rw [whole, ← four, beBytes_fromBe]
        have present : 0 < (bytesOf text).length := by omega
        have bounded : (bytesOf text).length ≤ maxBodyBytes := by omega
        refine ⟨raw ++ bytesOf text, ⟨by rw [counted], present, bounded, checked⟩, by simp, ?_⟩
        simp [four, whole]
  · rintro ⟨frame, ⟨rfl, nonempty, within, checked⟩, rfl, consumed⟩
    have counted := fromBe_body within
    refine ⟨beBytes lengthPrefixBytes (bytesOf decoded.body).length, bytesOf decoded.body ++ rest,
      ⟨length_beBytes, List.append_assoc _ _ _⟩, ?_⟩
    rw [counted, if_neg (by omega), if_neg (by omega)]
    simp only [bind_ok, take_ok, lift_ok, bodyText_ok]
    refine ⟨bytesOf decoded.body, rest, ⟨rfl, rfl⟩, decoded.body, rest, ⟨⟨rfl, checked⟩, rfl⟩, ?_⟩
    rw [List.length_append, length_beBytes] at consumed
    rw [← consumed]
    rfl

theorem decodeFrame_ok :
    decodeFrame json buffer = .ok decoded ↔
      ∃ frame rest, encodeFrame json decoded.body = .ok frame ∧ buffer = frame ++ rest ∧
        decoded.consumed = frame.length := by
  unfold decodeFrame
  constructor
  · intro read
    cases taken : takeFrame json buffer with
    | error error => rw [taken] at read; cases read
    | ok answer =>
      obtain ⟨own, rest⟩ := answer
      rw [taken] at read
      cases read
      obtain ⟨frame, parts⟩ := takeFrame_ok.mp taken
      exact ⟨frame, rest, parts⟩
  · rintro ⟨frame, rest, parts⟩
    rw [takeFrame_ok.mpr ⟨frame, parts⟩]
    rfl

def missing (frame : List UInt8) (cut : Nat) : Nat :=
  if cut < lengthPrefixBytes then lengthPrefixBytes - cut else frame.length - cut

theorem decodeFrame_cut (encoded : encodeFrame json body = .ok frame) (short : cut < frame.length) :
    decodeFrame json (frame.take cut) = .error (.incomplete (missing frame cut)) := by
  obtain ⟨rfl, nonempty, within, checked⟩ := encodeFrame_ok.mp encoded
  have counted := fromBe_body within
  have size : (beBytes lengthPrefixBytes (bytesOf body).length).length = lengthPrefixBytes :=
    length_beBytes
  simp only [List.length_append, size] at short
  unfold decodeFrame takeFrame missing
  by_cases early : cut < lengthPrefixBytes
  · have few : ((beBytes lengthPrefixBytes (bytesOf body).length ++ bytesOf body).take cut).length =
        cut := by
      simp only [List.length_take, List.length_append, size]
      omega
    rw [if_pos early, bind_error (takeOr_short (few.trans_lt early)), few]
    rfl
  · have parts : (beBytes lengthPrefixBytes (bytesOf body).length ++ bytesOf body).take cut =
        beBytes lengthPrefixBytes (bytesOf body).length ++
          (bytesOf body).take (cut - lengthPrefixBytes) := by
      rw [List.take_append, size, List.take_of_length_le (by omega)]
    have few : ((bytesOf body).take (cut - lengthPrefixBytes)).length =
        cut - lengthPrefixBytes := by
      rw [List.length_take]
      omega
    have needed : (bytesOf body).length - (cut - lengthPrefixBytes) =
        lengthPrefixBytes + (bytesOf body).length - cut := by omega
    have lacks : takeOr (bytesOf body).length
        ((bytesOf body).take (cut - lengthPrefixBytes)) = _ := takeOr_short (by rw [few]; omega)
    rw [few, needed] at lacks
    rw [if_neg early, parts, bind_run (takeOr_append size _), counted,
      if_neg (by omega), if_neg (by omega), bind_error lacks, List.length_append, size]
    rfl

theorem decodeFrame_ceiling (known : lengthPrefixBytes ≤ buffer.length)
    (large : fromBe (buffer.take lengthPrefixBytes) > maxBodyBytes) :
    decodeFrame json buffer =
      .error (.bodyTooLarge (fromBe (buffer.take lengthPrefixBytes)) maxBodyBytes) := by
  have size : (buffer.take lengthPrefixBytes).length = lengthPrefixBytes := by
    rw [List.length_take]
    omega
  have nonzero : ¬fromBe (buffer.take lengthPrefixBytes) = 0 := by omega
  have read := takeOr_append size (buffer.drop lengthPrefixBytes)
  rw [List.take_append_drop] at read
  unfold decodeFrame takeFrame
  rw [bind_run read, if_neg nonzero, if_pos large]
  rfl

namespace FrameReader

variable {chunk : List UInt8} {body : String} {buf frame rest : List UInt8}

def delivered (chunks : List (List UInt8)) : List SocketRead := chunks.map .bytes

theorem settled_ok {inner : List SocketRead} (encoded : encodeFrame json body = .ok frame) :
    settled json inner (frame ++ rest) = some (.ok (some body), ⟨inner, rest⟩) := by
  have decoded : decodeFrame json (frame ++ rest) = .ok ⟨body, frame.length⟩ :=
    decodeFrame_ok.mpr ⟨frame, rest, encoded, rfl, rfl⟩
  unfold settled
  simp [decoded]

theorem settled_cut {inner : List SocketRead} (encoded : encodeFrame json body = .ok frame)
    (parts : frame = buf ++ more) (short : more ≠ []) : settled json inner buf = none := by
  have cut : buf.length < frame.length := by
    rw [parts, List.length_append]
    have := List.length_pos_of_ne_nil short
    omega
  have pending := decodeFrame_cut encoded cut
  rw [parts, List.take_left] at pending
  unfold settled
  simp only [pending]

theorem buffered_cases (stream : buf ++ later = frame ++ rest) :
    (∃ kept, buf = frame ++ kept ∧ rest = kept ++ later) ∨
      ∃ more, more ≠ [] ∧ frame = buf ++ more := by
  rcases List.append_eq_append_iff.mp stream with ⟨more, parts, onward⟩ | ⟨kept, parts, onward⟩
  · by_cases done : more = []
    · exact .inl ⟨[], by simp [parts, done], by simp [onward, done]⟩
    · exact .inr ⟨more, done, parts⟩
  · exact .inl ⟨kept, parts, onward⟩

theorem nextFrom_settled {rest : List SocketRead}
    (known : settled json (.bytes chunk :: rest) buf = some answer) :
    nextFrom json (.bytes chunk :: rest) buf = answer := by
  rw [nextFrom, known]

theorem nextFrom_waits {rest : List SocketRead}
    (waiting : settled json (.bytes chunk :: rest) buf = none) (present : chunk ≠ []) :
    nextFrom json (.bytes chunk :: rest) buf = nextFrom json rest (buf ++ chunk) := by
  rw [nextFrom, waiting]
  exact if_neg (by simpa using present)

theorem nextFrom_frame (encoded : encodeFrame json body = .ok frame)
    (nonempty : ∀ chunk ∈ chunks, chunk ≠ []) (stream : buf ++ chunks.flatten = frame ++ rest) :
    ∃ left kept, nextFrom json (delivered chunks) buf =
        (.ok (some body), ⟨delivered left, kept⟩) ∧
      kept ++ left.flatten = rest ∧ ∀ chunk ∈ left, chunk ≠ [] := by
  induction chunks generalizing buf with
  | nil =>
    simp only [List.flatten_nil, List.append_nil] at stream
    refine ⟨[], rest, ?_, by simp, by simp⟩
    rw [stream]
    exact congrArg (fun answer => Option.getD answer _) (settled_ok encoded)
  | cons chunk chunks ih =>
    rcases buffered_cases stream with ⟨kept, rfl, rfl⟩ | ⟨more, short, parts⟩
    · exact ⟨chunk :: chunks, kept, nextFrom_settled (settled_ok encoded), rfl, nonempty⟩
    · have tail : ∀ other ∈ chunks, other ≠ [] :=
        fun other member => nonempty other (List.mem_cons_of_mem _ member)
      have onward : (buf ++ chunk) ++ chunks.flatten = frame ++ rest := by
        rw [← stream, List.flatten_cons, List.append_assoc]
      obtain ⟨left, kept, answer, parted⟩ := ih tail onward
      refine ⟨left, kept, ?_, parted⟩
      rw [← answer]
      exact nextFrom_waits (settled_cut encoded parts short) (nonempty chunk List.mem_cons_self)

theorem answers_end : answers json calls ⟨delivered [], []⟩ = List.replicate calls (.ok none) := by
  induction calls with
  | zero => rfl
  | succ calls ih => exact congrArg (Except.ok none :: ·) ih

theorem answers_stream
    (encoded : List.Forall₂ (fun body frame => encodeFrame json body = .ok frame) bodies frames)
    (nonempty : ∀ chunk ∈ chunks, chunk ≠ []) (stream : buf ++ chunks.flatten = frames.flatten) :
    answers json (bodies.length + more) ⟨delivered chunks, buf⟩ =
      bodies.map (fun body => .ok (some body)) ++ List.replicate more (.ok none) := by
  induction encoded generalizing chunks buf with
  | nil =>
    obtain ⟨rfl, empty⟩ := List.append_eq_nil_iff.mp stream
    have none : chunks = [] := by
      cases chunks with
      | nil => rfl
      | cons chunk chunks =>
        exact absurd (List.flatten_eq_nil_iff.mp empty chunk List.mem_cons_self)
          (nonempty chunk List.mem_cons_self)
    subst none
    simpa using answers_end
  | @cons body frame bodies frames first others ih =>
    obtain ⟨left, kept, answer, onward, present⟩ :=
      nextFrom_frame first nonempty (by rw [stream, List.flatten_cons])
    have count : (body :: bodies).length + more = (bodies.length + more) + 1 := by
      rw [List.length_cons]
      omega
    have next : (FrameReader.mk (delivered chunks) buf).next json = _ := answer
    rw [count, answers, next]
    exact congrArg (Except.ok (some body) :: ·) (ih present onward)

theorem nextFrom_ceiling {inner : List SocketRead} (known : lengthPrefixBytes ≤ buf.length)
    (large : fromBe (buf.take lengthPrefixBytes) > maxBodyBytes) :
    nextFrom json inner buf =
      (.error (.frame (.bodyTooLarge (fromBe (buf.take lengthPrefixBytes)) maxBodyBytes)),
        ⟨inner, buf⟩) := by
  have refused : settled json inner buf =
      some (.error (.frame (.bodyTooLarge (fromBe (buf.take lengthPrefixBytes)) maxBodyBytes)),
        ⟨inner, buf⟩) := by
    unfold settled
    rw [decodeFrame_ceiling known large]
  cases inner with
  | nil => rw [nextFrom, refused]; rfl
  | cons read rest =>
    cases read with
    | bytes chunk => exact nextFrom_settled refused
    | failed => rw [nextFrom, refused]; rfl

theorem nextFrom_ceiling_read {rest : List SocketRead} (unknown : before.length < lengthPrefixBytes)
    (known : lengthPrefixBytes ≤ (before ++ chunk).length)
    (large : fromBe ((before ++ chunk).take lengthPrefixBytes) > maxBodyBytes) :
    nextFrom json (.bytes chunk :: rest) before =
      (.error (.frame (.bodyTooLarge (fromBe ((before ++ chunk).take lengthPrefixBytes))
        maxBodyBytes)), ⟨rest, before ++ chunk⟩) := by
  have present : chunk ≠ [] := by
    rintro rfl
    simp only [List.append_nil] at known
    omega
  have waiting : settled json (.bytes chunk :: rest) before = none := by
    unfold settled decodeFrame takeFrame
    rw [bind_error (takeOr_short unknown)]
    rfl
  rw [nextFrom_waits waiting present, nextFrom_ceiling known large]

end FrameReader

def onlyEmptyObject : SerdeJson where
  Value := Unit
  fromStr text := if text = "\x7b\x7d" then .ok () else .error "expected value"
  isObject _ := true

open FrameReader

/-- Bytes of a body that is refused are in the buffer when they come with their length. -/
theorem refused_body_buffered :
    ¬∀ (json : SerdeJson) (chunks : List (List UInt8)) (declared : Nat),
      (∀ chunk ∈ chunks, chunk ≠ []) →
      ((FrameReader.new (delivered chunks)).next json).1 =
        .error (.frame (.bodyTooLarge declared maxBodyBytes)) →
      ((FrameReader.new (delivered chunks)).next json).2.buf.length ≤ lengthPrefixBytes := by
  intro unbuffered
  have short := unbuffered onlyEmptyObject [[255, 255, 255, 255, 7]] 4294967295 (by decide) rfl
  exact absurd short (by decide)

theorem framing_round_trip (json : SerdeJson) :
    (∀ (bodies : List String) (frames chunks : List (List UInt8)) (more : Nat),
      List.Forall₂ (fun body frame => encodeFrame json body = .ok frame) bodies frames →
      (∀ chunk ∈ chunks, chunk ≠ []) → chunks.flatten = frames.flatten →
        answers json (bodies.length + more) (FrameReader.new (delivered chunks)) =
          bodies.map (fun body => .ok (some body)) ++ List.replicate more (.ok none)) ∧
    (∀ (body : String) (frame : List UInt8) (cut : Nat), encodeFrame json body = .ok frame →
      cut < frame.length →
        decodeFrame json (frame.take cut) = .error (.incomplete (missing frame cut)) ∧
          0 < missing frame cut) ∧
    (∀ (frame : List UInt8) (body : String),
      decodeFrame json frame = .ok ⟨body, frame.length⟩ ↔ encodeFrame json body = .ok frame) ∧
    (∀ (buf : List UInt8) (inner : List SocketRead), lengthPrefixBytes ≤ buf.length →
      fromBe (buf.take lengthPrefixBytes) > maxBodyBytes →
        decodeFrame json buf =
          .error (.bodyTooLarge (fromBe (buf.take lengthPrefixBytes)) maxBodyBytes) ∧
        FrameReader.next json ⟨inner, buf⟩ =
          (.error (.frame (.bodyTooLarge (fromBe (buf.take lengthPrefixBytes)) maxBodyBytes)),
            ⟨inner, buf⟩)) ∧
    ∀ (before chunk : List UInt8) (rest : List SocketRead), before.length < lengthPrefixBytes →
      lengthPrefixBytes ≤ (before ++ chunk).length →
      fromBe ((before ++ chunk).take lengthPrefixBytes) > maxBodyBytes →
        FrameReader.next json ⟨.bytes chunk :: rest, before⟩ =
          (.error (.frame (.bodyTooLarge (fromBe ((before ++ chunk).take lengthPrefixBytes))
            maxBodyBytes)), ⟨rest, before ++ chunk⟩) := by
  refine ⟨?_, ?_, ?_, ?_, ?_⟩
  · intro bodies frames chunks more encoded nonempty joined
    exact answers_stream encoded nonempty (by simpa using joined)
  · intro body frame cut encoded short
    refine ⟨decodeFrame_cut encoded short, ?_⟩
    unfold missing
    split
    · omega
    · omega
  · intro frame body
    constructor
    · intro decoded
      obtain ⟨own, rest, encoded, parts, size⟩ := decodeFrame_ok.mp decoded
      have nothing : rest = [] := by
        have total := congrArg List.length parts
        rw [List.length_append] at total
        simp only at size
        exact List.length_eq_zero_iff.mp (by omega)
      rw [parts, nothing, List.append_nil]
      exact encoded
    · intro encoded
      exact decodeFrame_ok.mpr ⟨frame, [], encoded, by simp, rfl⟩
  · intro buf inner known large
    exact ⟨decodeFrame_ceiling known large, nextFrom_ceiling known large⟩
  · intro before chunk rest unknown known large
    exact nextFrom_ceiling_read unknown known large

theorem framing_round_trip_sample :
    encodeFrame onlyEmptyObject "\x7b\x7d" = .ok [0, 0, 0, 2, 123, 125] ∧
      answers onlyEmptyObject 2 (FrameReader.new (delivered [[0, 0], [0, 2, 123], [125]])) =
        [.ok (some "\x7b\x7d"), .ok none] := by
  have encoded : encodeFrame onlyEmptyObject "\x7b\x7d" = .ok [0, 0, 0, 2, 123, 125] := by rfl
  exact ⟨encoded, (framing_round_trip onlyEmptyObject).1 ["\x7b\x7d"] [[0, 0, 0, 2, 123, 125]] _ 1
    (.cons encoded .nil) (by decide) rfl⟩

end InterWeave.Ipc
