/- GID: Grotto/Protocol/Framing
   digest: Length-prefixed frames on a stream: what is written is read back however the stream is cut, and
   the readers that look at the first byte alone read the same frames. -/

import Grotto.Base.BigEndian
import Grotto.Base.Stream
import Grotto.Protocol.Wire

set_option autoImplicit false

namespace Grotto.Protocol.Framing

open Format.Varint (Bytes)
open Base.BigEndian (fromBeBytes)
open Base.Stream Records Wire

inductive ErrorKind
  | interrupted | unexpectedEof | invalidData | invalidInput | other
  deriving DecidableEq

structure IoError where
  kind : ErrorKind
  message : String
  deriving DecidableEq

def maxFrameSize : Nat := 1024 * 1024

/-- `u32::to_be_bytes`. -/
def beBytes32 (n : Nat) : Bytes := [24, 16, 8, 0].map fun shift : Nat => UInt8.ofNat (n / 2 ^ shift)

/-- `write_frame`: the bytes put on the writer. -/
def writeFrame (payload : Bytes) : Except IoError Bytes :=
  let length := payload.length
  if 2 ^ 32 ≤ length then .error ⟨.invalidInput, "payload too large"⟩
  else if maxFrameSize < length then .error ⟨.invalidInput, s!"frame too large: {length} bytes"⟩
  else .ok (beBytes32 length ++ payload)

def writeFrames : List Bytes → Except IoError Bytes
  | [] => .ok []
  | payload :: payloads => do
      let frame ← writeFrame payload
      let frames ← writeFrames payloads
      return frame ++ frames

def truncatedHeader (received : Nat) : IoError :=
  ⟨.unexpectedEof, s!"truncated frame header: received {received} of 4 bytes"⟩

def truncatedPayload (length : Nat) : IoError :=
  ⟨.unexpectedEof, s!"truncated frame payload: expected {length} bytes"⟩

def frameTooLarge (length : Nat) : IoError := ⟨.invalidData, s!"frame too large: {length} bytes"⟩

section Readers

variable {σ : Type} [Reader σ IoError UInt8]

/-- `read_frame`. -/
def readFrame (reader : σ) : Except IoError (Option Bytes) × σ :=
  match fill (fun e : IoError => e.kind = .interrupted) 4 reader [] with
  | (.short header, reader) =>
    if header = [] then (.ok none, reader) else (.error (truncatedHeader header.length), reader)
  | (.failed e, reader) => (.error e, reader)
  | (.full header, reader) =>
    let length := fromBeBytes header
    if maxFrameSize < length then (.error (frameTooLarge length), reader)
    else
      -- `read_exact` retries nothing, and its end of file is the caller's own error
      match fill (fun _ => false) length reader [] with
      | (.short _, reader) => (.error (truncatedPayload length), reader)
      | (.failed e, reader) =>
        (.error (if e.kind = .unexpectedEof then truncatedPayload length else e), reader)
      | (.full payload, reader) => (.ok (some payload), reader)

/-- `first.as_slice().chain(reader)`. -/
def chained (first : UInt8) (reader : σ) : Chain σ UInt8 := ⟨[first], false, reader⟩

/-- `read_client_frame`. -/
def readClientFrame (reader : σ) : Except IoError (Option Bytes) × σ :=
  match Reader.read reader 1 with
  | (.error e, reader) => (.error e, reader)
  | (.ok [], reader) => (.ok none, reader)
  | (.ok (first :: _), reader) =>
    ((readFrame (chained first reader)).1, (readFrame (chained first reader)).2.second)

inductive InboundError
  | io (error : IoError)
  | decode (error : DecodeMessageError)

inductive InboundEvent
  | message (message : ClientMessage)
  | disconnected
  | error (error : InboundError)

def frameEvent : Except IoError (Option Bytes) → InboundEvent
  | .error e => .error (.io e)
  | .ok none => .error (.io ⟨.unexpectedEof, "missing frame"⟩)
  | .ok (some frame) =>
    match decodeMessage ClientMessage frame with
    | .error e => .error (.decode e)
    | .ok message => .message message

/-- One round of `read_inbound_with_budget`. -/
def readInbound (reader : σ) : InboundEvent × σ :=
  match Reader.read reader 1 with
  | (.ok [], reader) => (.disconnected, reader)
  | (.error e, reader) => (.error (.io e), reader)
  | (.ok (first :: _), reader) =>
    (frameEvent (readFrame (chained first reader)).1, (readFrame (chained first reader)).2.second)

def InboundEvent.terminal : InboundEvent → Bool
  | .message _ => false
  | _ => true

/-- The first rounds of `read_inbound_with_budget`, which ends after an event that is no message. -/
def readInboundRounds : Nat → σ → List InboundEvent
  | 0, _ => []
  | rounds + 1, reader =>
    let (event, reader) := readInbound reader
    if event.terminal then [event] else event :: readInboundRounds rounds reader

end Readers

section Parsing

/-- The frame at the front of the data, and the data after what is read of it. -/
def parseFrame (data : Bytes) : Except IoError (Option Bytes) × Bytes :=
  if data = [] then (.ok none, [])
  else if data.length < 4 then (.error (truncatedHeader data.length), [])
  else
    let length := fromBeBytes (data.take 4)
    if maxFrameSize < length then (.error (frameTooLarge length), data.drop 4)
    else if (data.drop 4).length < length then (.error (truncatedPayload length), [])
    else (.ok (some ((data.drop 4).take length)), (data.drop 4).drop length)

variable {σ : Type} [Reader σ IoError UInt8] {R S : σ → Bytes → Prop} {reader : σ} {data : Bytes}

theorem readFrame_parses (hands : Hands R S) (keeps : Hands S S) (here : R reader data) :
    (readFrame reader).1 = (parseFrame data).1 ∧ S (readFrame reader).2 (parseFrame data).2 := by
  obtain ⟨next, header, there⟩ :=
    @fill_begins _ _ _ _ _ _ (fun e : IoError => e.kind = .interrupted) 4 reader [] data hands keeps
      (Nat.zero_lt_succ 3) here
  unfold readFrame parseFrame
  rw [header]
  unfold filled
  rw [List.length_nil, Nat.zero_add, List.nil_append, List.nil_append, Nat.sub_zero]
  rw [List.length_nil, Nat.sub_zero] at there
  by_cases long : 4 ≤ data.length
  · have some : data ≠ [] := fun none => by rw [none] at long; exact absurd long (by decide)
    rw [if_pos long, if_neg some, if_neg (Nat.not_lt.mpr long)]
    dsimp only
    split
    · exact ⟨rfl, there⟩
    obtain ⟨last, payload, left⟩ :=
      @fill_delivers _ _ _ _ _ (fun _ : IoError => false) (fromBeBytes (data.take 4)) next [] _ keeps
        (Nat.zero_le _) there
    rw [payload]
    unfold filled
    rw [List.length_nil, Nat.zero_add, List.nil_append, List.nil_append, Nat.sub_zero]
    rw [List.length_nil, Nat.sub_zero] at left
    by_cases whole : fromBeBytes (data.take 4) ≤ (data.drop 4).length
    · rw [if_pos whole, if_neg (Nat.not_lt.mpr whole)]
      exact ⟨rfl, left⟩
    · rw [if_neg whole, if_pos (Nat.lt_of_not_le whole)]
      rw [List.drop_eq_nil_of_le (Nat.le_of_not_le whole)] at left
      exact ⟨rfl, left⟩
  · rw [if_neg long]
    rw [List.drop_eq_nil_of_le (Nat.le_of_not_le long)] at there
    dsimp only
    split
    · exact ⟨rfl, there⟩
    · rw [if_pos (Nat.lt_of_not_le long)]
      exact ⟨rfl, there⟩

theorem chained_parses (keeps : Hands S S) (first : UInt8) (there : S reader data) :
    (readFrame (chained first reader)).1 = (parseFrame (first :: data)).1 ∧
      S (readFrame (chained first reader)).2.second (parseFrame (first :: data)).2 := by
  obtain ⟨frame, -, left⟩ := @readFrame_parses (Chain σ UInt8) _ (Fresh S) (Drained S)
    (chained first reader) (first :: data) hands_fresh (hands_drained keeps)
    ⟨first, data, rfl, rfl, rfl, there⟩
  exact ⟨frame, left⟩

theorem first_cases (keeps : Hands S S) (here : S reader data) : ∃ next,
    data = [] ∧ Reader.read reader 1 = (.ok [], next) ∧ S next [] ∨
      ∃ first back, data = first :: back ∧ Reader.read reader 1 = (.ok [first], next) ∧ S next back := by
  obtain ⟨front, back, next, rfl, answer, there, within, last⟩ := keeps reader data 1 here Nat.one_pos
  cases front with
  | nil =>
    obtain rfl := last rfl
    exact ⟨next, .inl ⟨rfl, answer, there⟩⟩
  | cons first others =>
    obtain rfl := List.length_eq_zero_iff.mp (Nat.le_zero.mp (Nat.le_of_succ_le_succ within))
    exact ⟨next, .inr ⟨first, back, rfl, answer, there⟩⟩

theorem readClientFrame_parses (keeps : Hands S S) (here : S reader data) :
    (readClientFrame reader).1 = (parseFrame data).1 ∧
      S (readClientFrame reader).2 (parseFrame data).2 := by
  obtain ⟨next, ⟨rfl, answer, there⟩ | ⟨first, back, rfl, answer, there⟩⟩ := first_cases keeps here
  · unfold readClientFrame
    rw [answer]
    exact ⟨rfl, there⟩
  · unfold readClientFrame
    rw [answer]
    exact chained_parses keeps first there

/-- The event of an answer; only the end of the stream is not a frame. -/
def inboundEvent : Except IoError (Option Bytes) → InboundEvent
  | .ok none => .disconnected
  | .ok (some frame) => frameEvent (.ok (some frame))
  | .error e => frameEvent (.error e)

theorem parseFrame_cons (first : UInt8) (back : Bytes) :
    frameEvent (parseFrame (first :: back)).1 = inboundEvent (parseFrame (first :: back)).1 := by
  unfold parseFrame
  rw [if_neg (List.cons_ne_nil first back)]
  split
  · rfl
  dsimp only
  split
  · rfl
  · split
    · rfl
    · rfl

theorem readInbound_parses (keeps : Hands S S) (here : S reader data) :
    (readInbound reader).1 = inboundEvent (parseFrame data).1 ∧
      S (readInbound reader).2 (parseFrame data).2 := by
  obtain ⟨next, ⟨rfl, answer, there⟩ | ⟨first, back, rfl, answer, there⟩⟩ := first_cases keeps here
  · unfold readInbound
    rw [answer]
    exact ⟨rfl, there⟩
  obtain ⟨frame, left⟩ := chained_parses keeps first there
  unfold readInbound
  rw [answer]
  refine ⟨?_, left⟩
  dsimp only
  rw [frame, parseFrame_cons]

def untilTerminal : List InboundEvent → List InboundEvent
  | [] => []
  | event :: events => if event.terminal then [event] else event :: untilTerminal events

theorem readInboundRounds_parses (keeps : Hands S S) (here : S reader data) (rounds : Nat) :
    readInboundRounds rounds reader =
      untilTerminal ((calls parseFrame rounds data).1.map inboundEvent) := by
  induction rounds generalizing reader data with
  | zero => rfl
  | succ rounds ih =>
    obtain ⟨event, left⟩ := readInbound_parses keeps here
    unfold readInboundRounds calls
    rw [List.map_cons, untilTerminal, ← event]
    dsimp only
    rw [ih left]

end Parsing

section Frames

variable {payload : Bytes} {payloads : List Bytes}

def encodeFrame (payload : Bytes) : Bytes := beBytes32 payload.length ++ payload

theorem fromBeBytes_beBytes32 {n : Nat} (fits : n ≤ maxFrameSize) : fromBeBytes (beBytes32 n) = n := by
  unfold maxFrameSize at fits
  simp only [fromBeBytes, beBytes32, List.map_cons, List.map_nil, List.foldl_cons, List.foldl_nil,
    UInt8.toNat_ofNat']
  omega

theorem writeFrame_ok (fits : payload.length ≤ maxFrameSize) :
    writeFrame payload = .ok (encodeFrame payload) := by
  have small : ¬2 ^ 32 ≤ payload.length := by
    unfold maxFrameSize at fits
    omega
  unfold writeFrame
  rw [if_neg small, if_neg (Nat.not_lt.mpr fits)]
  rfl

theorem writeFrames_ok (fits : ∀ payload ∈ payloads, payload.length ≤ maxFrameSize) :
    writeFrames payloads = .ok (payloads.flatMap encodeFrame) := by
  induction payloads with
  | nil => rfl
  | cons payload payloads ih =>
    have first := writeFrame_ok (fits payload List.mem_cons_self)
    have others := ih fun payload listed => fits payload (List.mem_cons_of_mem _ listed)
    unfold writeFrames
    rw [first, others]
    rfl

theorem parseFrame_header {header : Bytes} (four : header.length = 4) (rest : Bytes) :
    parseFrame (header ++ rest) =
      if maxFrameSize < fromBeBytes header then (.error (frameTooLarge (fromBeBytes header)), rest)
      else if rest.length < fromBeBytes header then
        (.error (truncatedPayload (fromBeBytes header)), [])
      else (.ok (some (rest.take (fromBeBytes header))), rest.drop (fromBeBytes header)) := by
  have some : header ++ rest ≠ [] := fun none => by
    rw [(List.append_eq_nil_iff.mp none).1] at four
    cases four
  have long : ¬(header ++ rest).length < 4 := by
    rw [List.length_append]
    omega
  unfold parseFrame
  rw [if_neg some, if_neg long]
  rw [← four, List.take_left, List.drop_left]

theorem parseFrame_frame (fits : payload.length ≤ maxFrameSize) (rest : Bytes) :
    parseFrame (encodeFrame payload ++ rest) = (.ok (some payload), rest) := by
  have announced := fromBeBytes_beBytes32 fits
  unfold encodeFrame
  rw [List.append_assoc, parseFrame_header rfl, announced, if_neg (Nat.not_lt.mpr fits), if_neg,
    List.take_left, List.drop_left]
  rw [List.length_append]
  omega

theorem parseFrame_truncated {front back : Bytes} (fits : payload.length ≤ maxFrameSize)
    (cut : encodeFrame payload = front ++ back) (some : front ≠ []) (missing : back ≠ []) :
    ∃ e : IoError, (parseFrame front).1 = .error e ∧ e.kind = .unexpectedEof := by
  by_cases short : front.length < 4
  · refine ⟨truncatedHeader front.length, ?_, rfl⟩
    unfold parseFrame
    rw [if_neg some, if_pos short]
  obtain ⟨part, rfl⟩ : ∃ part, front = beBytes32 payload.length ++ part := by
    rcases List.append_eq_append_iff.mp cut with ⟨part, split, -⟩ | ⟨part, split, -⟩
    · exact ⟨part, split⟩
    have lengths := congrArg List.length split
    rw [List.length_append] at lengths
    have four : (beBytes32 payload.length).length = 4 := rfl
    have none : part = [] := List.length_eq_zero_iff.mp (by omega)
    exact ⟨[], by rw [split, none, List.append_nil, List.append_nil]⟩
  have split : payload = part ++ back := by
    unfold encodeFrame at cut
    rwa [List.append_assoc, List.append_cancel_left_eq] at cut
  have shorter : part.length < payload.length := by
    have length := List.length_pos_iff.mpr missing
    rw [split, List.length_append]
    omega
  refine ⟨truncatedPayload payload.length, ?_, rfl⟩
  rw [parseFrame_header rfl, fromBeBytes_beBytes32 fits, if_neg (Nat.not_lt.mpr fits), if_pos shorter]

theorem calls_frames (fits : ∀ payload ∈ payloads, payload.length ≤ maxFrameSize) (more : Nat)
    (rest : Bytes) :
    calls parseFrame (payloads.length + more) (payloads.flatMap encodeFrame ++ rest) =
      (payloads.map (fun payload => .ok (some payload)) ++ (calls parseFrame more rest).1,
        (calls parseFrame more rest).2) := by
  induction payloads with
  | nil => rw [List.length_nil, Nat.zero_add]; rfl
  | cons payload payloads ih =>
    have first := parseFrame_frame (fits payload List.mem_cons_self)
      (payloads.flatMap encodeFrame ++ rest)
    have others := ih fun payload listed => fits payload (List.mem_cons_of_mem _ listed)
    rw [List.length_cons, Nat.add_right_comm, calls, List.flatMap_cons, List.append_assoc, first, others]
    rfl

theorem calls_truncated (fits : ∀ payload ∈ payloads, payload.length ≤ maxFrameSize) {data : Bytes}
    (cut : data <+: payloads.flatMap encodeFrame)
    (within : ∀ k, data ≠ (payloads.take k).flatMap encodeFrame) :
    ∃ k < payloads.length, ∃ e : IoError, (calls parseFrame (k + 1) data).1 =
      (payloads.take k).map (fun payload => .ok (some payload)) ++ [.error e] ∧
      e.kind = .unexpectedEof := by
  induction payloads generalizing data with
  | nil => exact absurd (List.prefix_nil.mp cut) (within 0)
  | cons payload payloads ih =>
    have first := fits payload List.mem_cons_self
    obtain ⟨tail, whole⟩ := cut
    rw [List.flatMap_cons] at whole
    rcases List.append_eq_append_iff.mp whole with ⟨missing, frame, -⟩ | ⟨later, rfl, rest⟩
    · have some : data ≠ [] := within 0
      have open' : missing ≠ [] := by
        rintro rfl
        refine within 1 ?_
        rw [List.append_nil] at frame
        simpa using frame.symm
      obtain ⟨e, failed, kind⟩ := parseFrame_truncated first frame some open'
      exact ⟨0, Nat.zero_lt_succ _, e, congrArg (· :: []) failed, kind⟩
    · have apart : ∀ k, later ≠ (payloads.take k).flatMap encodeFrame := by
        rintro k rfl
        exact within (k + 1) rfl
      obtain ⟨k, inside, e, answers, kind⟩ :=
        ih (fun payload listed => fits payload (List.mem_cons_of_mem _ listed)) ⟨tail, rest.symm⟩ apart
      refine ⟨k + 1, Nat.succ_lt_succ inside, e, ?_, kind⟩
      rw [calls, parseFrame_frame first, answers]
      rfl

end Frames

section Results

def arriving (chunks : List (Chunk UInt8)) : List (Arrival IoError UInt8) := chunks.map .chunk

def contents (chunks : List (Chunk UInt8)) : Bytes := (chunks.map Subtype.val).flatten

theorem intact_arriving (chunks : List (Chunk UInt8)) : Intact (arriving chunks) (contents chunks) :=
  ⟨chunks, rfl, rfl⟩

theorem readFrame_calls (chunks : List (Chunk UInt8)) (n : Nat) :
    (calls readFrame n (arriving chunks)).1 = (calls parseFrame n (contents chunks)).1 ∧
      Intact (calls readFrame n (arriving chunks)).2 (calls parseFrame n (contents chunks)).2 :=
  calls_simulate (fun _ _ here => readFrame_parses hands_intact hands_intact here) n
    (intact_arriving chunks)

theorem readClientFrame_calls (chunks : List (Chunk UInt8)) (n : Nat) :
    (calls readClientFrame n (arriving chunks)).1 = (calls parseFrame n (contents chunks)).1 :=
  (calls_simulate (fun _ _ here => readClientFrame_parses hands_intact here) n
    (intact_arriving chunks)).1

/-- However a stream is cut into pieces: the frames written to it are read back and then its end; a stream
that ends within a frame ends with an unexpected end of file; a header that announces too much fails with
everything after it unread; and the readers that look at the first byte alone read the same. -/
theorem frames_read_back :
    (∀ payloads : List Bytes, (∀ payload ∈ payloads, payload.length ≤ maxFrameSize) →
      ∃ written, writeFrames payloads = .ok written ∧
        (∀ chunks, contents chunks = written →
          (calls readFrame (payloads.length + 1) (arriving chunks)).1 =
            payloads.map (fun payload => .ok (some payload)) ++ [.ok none]) ∧
        (∀ chunks, contents chunks <+: written →
          (∀ k front, writeFrames (payloads.take k) = .ok front → contents chunks ≠ front) →
          ∃ k < payloads.length, ∃ e : IoError, (calls readFrame (k + 1) (arriving chunks)).1 =
            (payloads.take k).map (fun payload => .ok (some payload)) ++ [.error e] ∧
            e.kind = .unexpectedEof) ∧
        ∀ chunks header rest, header.length = 4 → maxFrameSize < fromBeBytes header →
          contents chunks = written ++ header ++ rest →
          (calls readFrame (payloads.length + 1) (arriving chunks)).1 =
            payloads.map (fun payload => .ok (some payload)) ++
              [.error (frameTooLarge (fromBeBytes header))] ∧
          Intact (calls readFrame (payloads.length + 1) (arriving chunks)).2 rest) ∧
    (∀ chunks n, (calls readClientFrame n (arriving chunks)).1 =
      (calls readFrame n (arriving chunks)).1) ∧
    ∀ chunks n, readInboundRounds n (arriving chunks) =
      untilTerminal ((calls readFrame n (arriving chunks)).1.map inboundEvent) := by
  refine ⟨fun payloads fits => ⟨_, writeFrames_ok fits, ?_, ?_, ?_⟩, ?_, ?_⟩
  · intro chunks whole
    have answers := calls_frames fits 1 []
    rw [List.append_nil, ← whole] at answers
    rw [(readFrame_calls chunks _).1, answers]
    rfl
  · intro chunks cut within
    have apart : ∀ k, contents chunks ≠ (payloads.take k).flatMap encodeFrame := fun k =>
      within k _ (writeFrames_ok fun payload listed => fits payload (List.mem_of_mem_take listed))
    obtain ⟨k, inside, e, answers, kind⟩ := calls_truncated fits cut apart
    exact ⟨k, inside, e, (readFrame_calls chunks _).1.trans answers, kind⟩
  · intro chunks header rest four large whole
    have answers := calls_frames fits 1 (header ++ rest)
    have refused : calls parseFrame 1 (header ++ rest) =
        ([.error (frameTooLarge (fromBeBytes header))], rest) := by
      rw [calls, parseFrame_header four, if_pos large]
      rfl
    rw [← List.append_assoc, ← whole, refused] at answers
    obtain ⟨same, left⟩ := readFrame_calls chunks (payloads.length + 1)
    rw [answers] at same left
    exact ⟨same, left⟩
  · intro chunks n
    rw [readClientFrame_calls, (readFrame_calls chunks n).1]
  · intro chunks n
    rw [readInboundRounds_parses hands_intact (intact_arriving chunks), (readFrame_calls chunks n).1]

end Results

end Grotto.Protocol.Framing
