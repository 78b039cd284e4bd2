/- GID: Grotto/Relay/Answers
   digest: No stored record is unreadable and every answer but a Welcome page fits the wire. -/

import Grotto.Relay.Failures

set_option autoImplicit false

namespace Grotto.Relay.Answers

open Format.Varint
open Format.Postcard (size_u64_le)
open Protocol.Records Protocol.Wire Protocol.Transcripts Protocol.Sizes
open Storage Deliver Steps Invariant
open Pages Failures

structure Deliverable (response : Response) : Prop where
  fits : 18 + fieldsSize response ≤ maxPayload
  within : FieldsWithin response

variable {response : Response}

theorem Deliverable.roundTrip (ready : Deliverable response) (id : MessageId) :
    ∃ reply, encodeMessage (RelayMessage.delivery id response) = .ok reply ∧
      decodeMessage RelayMessage reply = .ok (.delivery id response) := by
  have fits : wireSize (RelayMessage.delivery id response) ≤ maxPayload := by
    rw [size_deliveryReply]
    exact ready.fits
  refine ⟨_, encodeMessage_of_le fits, ?_⟩
  exact decodeMessage_encodeMessage (encodeMessage_of_le fits)
    ((bounded_deliveryReply id response).mpr ready.within)

theorem deliverable_rejected (reason : Rejection) : Deliverable (.rejected reason) :=
  ⟨by simp only [fieldsSize]; decide, trivial⟩

variable {db : Db} {user : UserId}

theorem deliverable_roomEvents (tables : Tables db) {room : RoomId}
    (subscribed : db.isSubscribed room user = true) {start : UInt64}
    (bound : start.toNat ≤ i64Max) (result : fetchRoomEvents db user room start = .ok response) :
    Deliverable response := by
  obtain ⟨page, events, more, answer, reads, paged⟩ :=
    fetchRoomEvents_page tables subscribed bound
  rw [answer] at result
  obtain rfl := Except.ok.inj result
  have held : ∀ row ∈ page, ∀ e, decodeStored Event row.record = .ok e → Holds row e := by
    intro row member e decoded
    have inside := (List.mem_filter.mp (List.mem_filter.mp
      (paged.isPage.front.subset member)).1).1
    obtain ⟨f, holds⟩ := tables.log.records row inside
    have equal := decodeStored_ok.mp decoded
    rw [holds.decoded] at equal
    exact Except.ok.inj equal ▸ holds
  have sizes : (page.map fun row => row.record.length) = events.map (event wire).size :=
    map_of_reads reads fun row member e decoded => record_length (held row member e decoded)
  have count : events.length = page.length := by
    rw [← List.length_map (f := Except.ok (ε := StorageError)), ← reads, List.length_map]
  have length : varintSize 10 events.length ≤ 1 := by
    have small := paged.count
    have hundred : pageSize = 100 := rfl
    exact varintSize_le (k := 0) (by omega)
  have first := size_u64_le start
  have total := paged.bytes
  rw [sizes] at total
  have budget : pageBudget + 96 = maxPayload := by decide
  constructor
  · simp only [fieldsSize]
    omega
  refine ⟨?_, fun e member => ?_⟩
  · rw [count]
    exact paged.count
  · obtain ⟨row, inside, decoded⟩ := mem_of_reads reads member
    exact (held row inside e decoded).admissible.bodies

theorem deliverable_syncIndex (tables : Tables db) (user : UserId) (start : Option RoomId) :
    Deliverable (syncIndex db user start) := by
  obtain ⟨rooms, more, answer, count, named, -⟩ := syncIndex_page tables.rooms user start
  rw [answer]
  have name : ∀ h ∈ rooms, utf8Size h.name ≤ 400 := by
    intro h member
    obtain ⟨r, inside, rfl⟩ := named h member
    exact normalizeRoomName_size (tables.rooms.names r inside)
  have entry : ∀ h ∈ rooms, (roomHead wire).size h ≤ 428 := by
    intro h member
    have nameSize : varintSize 10 (utf8Size h.name) ≤ 2 :=
      varintSize_le (k := 1) (Nat.lt_of_le_of_lt (name h member) (by decide))
    have sequence := size_u64_le h.sequence
    have bytes := name h member
    rw [size_roomHead]
    omega
  have total : (rooms.map (roomHead wire).size).sum ≤ rooms.length * 428 := by
    have bound := List.sum_le_card_nsmul (rooms.map (roomHead wire).size) 428 (by simpa using entry)
    simpa using bound
  have hundred : pageSize = 100 := rfl
  have length : varintSize 10 rooms.length ≤ 1 := varintSize_le (k := 0) (by omega)
  have payload : maxPayload = 786432 := rfl
  constructor
  · simp only [fieldsSize]
    omega
  · exact ⟨count, name⟩

def NotWelcomes (response : Response) : Prop :=
  ∀ start welcomes more, response ≠ .welcomes start welcomes more

variable {here : Surroundings} {id : MessageId} {request : Request}

private theorem deliverable_read {db next : Db} (tables : Tables db)
    (read : request.isRead = true) (other : NotWelcomes response)
    (executed : execute here db user id request = .ok (response, next)) : Deliverable response := by
  cases request with
  | fetchRoomEvents room start =>
    have result := (map_unchanged executed).1
    by_cases bound : start.toNat > i64Max
    · rw [fetchRoomEvents, if_pos bound] at result
      exact Except.ok.inj result ▸ deliverable_rejected .invalid
    cases subscribed : db.isSubscribed room user with
    | false =>
      rw [fetchRoomEvents, if_neg bound, if_pos (by simp [subscribed])] at result
      exact Except.ok.inj result ▸ deliverable_rejected .unauthorized
    | true => exact deliverable_roomEvents tables subscribed (Nat.not_lt.mp bound) result
  | fetchWelcomes start =>
    have result := (map_unchanged executed).1
    by_cases bound : start.toNat > i64Max
    · rw [fetchWelcomes, if_pos bound] at result
      exact Except.ok.inj result ▸ deliverable_rejected .invalid
    · obtain ⟨page, welcomes, more, answer, -⟩ :=
        fetchWelcomes_page tables user (Nat.not_lt.mp bound)
      rw [answer] at result
      exact absurd (Except.ok.inj result).symm (other start welcomes more)
  | syncIndex start =>
    have result := (Prod.mk.inj (Except.ok.inj executed)).1
    exact result ▸ deliverable_syncIndex tables user start
  | _ => simp [Request.isRead] at read

theorem deliverable_answer {sha256 : Hash} (valid : Valid sha256 db)
    (answer : (deliver sha256 here db user id request).1 = .ok response)
    (other : NotWelcomes response) : Deliverable response := by
  have delivers := deliver_delivers sha256 here db user id request
  rw [answer] at delivers
  generalize (deliver sha256 here db user id request).2 = final at delivers
  cases delivers with
  | conflicting => exact deliverable_rejected _
  | @replayed wire row _ encoded saved same decoded =>
    obtain ⟨_, replay, result⟩ := valid.journal.results row (savedRequest_some saved).1
    have equal := result.decoded
    rw [decoded] at equal
    obtain rfl := Except.ok.inj equal
    exact ⟨result.fits, (bounded_response response).mp (decodeMessage_sound decoded).1⟩
  | unsettled => exact deliverable_rejected _
  | answered read unused executed => exact deliverable_read valid.toTables read other executed
  | settled journals =>
    obtain ⟨wire, bytes, next, sender, room, encoded, kept, writes, rfl⟩ := journals.witness
    exact ⟨Writes.fits valid.toTables writes journals.durable,
      Writes.within valid.toTables writes journals.durable⟩

def namesOf : Response → List String
  | .syncIndex rooms _ => rooms.map RoomHead.name
  | .welcomes _ welcomes _ => welcomes.map WelcomeDelivery.roomName
  | _ => []

theorem namesOf_not_page (plain : isPage response = false) : namesOf response = [] := by
  cases response <;> first | rfl | simp [isPage] at plain

private theorem names_welcomes (tables : Tables db) {start : UInt64}
    (result : fetchWelcomes db user start = .ok response) :
    ∀ name ∈ namesOf response, normalizeRoomName name = .ok name := by
  by_cases bound : start.toNat > i64Max
  · rw [fetchWelcomes, if_pos bound] at result
    obtain rfl := Except.ok.inj result
    exact fun _ listed => absurd listed List.not_mem_nil
  obtain ⟨page, welcomes, more, answer, reads, paged⟩ :=
    fetchWelcomes_page tables user (Nat.not_lt.mp bound)
  rw [answer] at result
  obtain rfl := Except.ok.inj result
  intro name member
  obtain ⟨w, listed, rfl⟩ := List.mem_map.mp member
  obtain ⟨row, inside, read⟩ := mem_of_reads reads listed
  have stored := (List.mem_filter.mp (List.mem_filter.mp
    (paged.isPage.front.subset inside)).1).1
  obtain ⟨v, holds, -⟩ := tables.welcomes.records row stored
  rw [readWelcome, decodeStored_ok.mpr holds.decoded] at read
  obtain rfl := Except.ok.inj read
  exact holds.name

private theorem names_read {db next : Db} (tables : Tables db) (read : request.isRead = true)
    (executed : execute here db user id request = .ok (response, next)) :
    ∀ name ∈ namesOf response, normalizeRoomName name = .ok name := by
  cases request with
  | fetchRoomEvents room start =>
    have result := (map_unchanged executed).1
    unfold fetchRoomEvents at result
    split at result
    · obtain rfl := Except.ok.inj result
      exact fun _ => nofun
    split at result
    · obtain rfl := Except.ok.inj result
      exact fun _ => nofun
    simp only [bind, Except.bind] at result
    split at result
    · simp at result
    · obtain rfl := Except.ok.inj result
      exact fun _ => nofun
  | fetchWelcomes start => exact names_welcomes tables (map_unchanged executed).1
  | syncIndex start =>
    obtain rfl := (Prod.mk.inj (Except.ok.inj executed)).1
    obtain ⟨rooms, more, answer, -, named, -⟩ := syncIndex_page tables.rooms user start
    rw [answer]
    intro name member
    obtain ⟨h, listed, rfl⟩ := List.mem_map.mp member
    obtain ⟨r, inside, rfl⟩ := named h listed
    exact tables.rooms.names r inside
  | _ => simp [Request.isRead] at read

theorem names_answer {sha256 : Hash} (valid : Valid sha256 db)
    (answer : (deliver sha256 here db user id request).1 = .ok response) :
    ∀ name ∈ namesOf response, normalizeRoomName name = .ok name := by
  have delivers := deliver_delivers sha256 here db user id request
  rw [answer] at delivers
  generalize (deliver sha256 here db user id request).2 = final at delivers
  cases delivers with
  | conflicting => exact fun _ => nofun
  | unsettled => exact fun _ => nofun
  | @replayed wire row _ encoded saved same decoded =>
    obtain ⟨_, replay, result⟩ := valid.journal.results row (savedRequest_some saved).1
    have equal := result.decoded
    rw [decoded] at equal
    obtain rfl := Except.ok.inj equal
    rw [namesOf_not_page result.plain]
    exact fun _ => nofun
  | answered read unused executed => exact names_read valid.toTables read executed
  | settled journals =>
    obtain ⟨wire, bytes, next, sender, room, encoded, kept, writes, rfl⟩ := journals.witness
    rw [namesOf_not_page (writes.not_page journals.durable)]
    exact fun _ => nofun

/-- In every state the calls can reach, for every request a connection can decode: all stored
records are readable, the call fails only from outside, every answer but a page of Welcomes makes
the round trip to the client, every event fits a page alone, and every name is normalized. -/
theorem every_answer_deliverable (sha256 : Hash) (calls : List Call) (here : Surroundings)
    (user : UserId) (id : MessageId) (request : Request) (frame : Bytes)
    (decoded : decodeMessage ClientMessage frame = .ok (.delivery id request)) :
    (∀ row ∈ (runCalls sha256 Db.empty calls).deliveryEvents,
      (∃ e, decodeMessage Event row.record = .ok e) ∧ row.record.length ≤ maxPayload - 96) ∧
    (∀ row ∈ (runCalls sha256 Db.empty calls).deliveryWelcomes,
      ∃ w, decodeMessage WelcomeDelivery row.record = .ok w) ∧
    (∀ row ∈ (runCalls sha256 Db.empty calls).deliveryRequests,
      ∃ r, decodeMessage Response row.response = .ok r) ∧
    (∀ reason, (deliver sha256 here (runCalls sha256 Db.empty calls) user id request).1 ≠
      .error (.invalidStoredData reason)) ∧
    (∀ response,
      (deliver sha256 here (runCalls sha256 Db.empty calls) user id request).1 = .ok response →
      (∀ name ∈ namesOf response, normalizeRoomName name = .ok name) ∧
      (NotWelcomes response →
        ∃ reply, encodeMessage (RelayMessage.delivery id response) = .ok reply ∧
          decodeMessage RelayMessage reply = .ok (.delivery id response))) := by
  have valid := (Valid.empty sha256).runCalls calls
  refine ⟨?_, ?_, ?_, ?_, ?_⟩
  · intro row member
    obtain ⟨e, holds⟩ := valid.log.records row member
    exact ⟨⟨e, holds.decoded⟩, record_alone holds⟩
  · intro row member
    obtain ⟨w, holds, -⟩ := valid.welcomes.records row member
    exact ⟨w, holds.decoded⟩
  · intro row member
    obtain ⟨_, response, result⟩ := valid.journal.results row member
    exact ⟨response, result.decoded⟩
  · intro reason failed
    rcases deliver_fails valid (size_of_decoded decoded) failed with ⟨fault, -, broken⟩ | ⟨-, fails⟩
    · cases fault <;> cases broken
    · cases fails
  · intro response answer
    exact ⟨names_answer valid answer, fun other => (deliverable_answer valid answer other).roundTrip id⟩

theorem grant_answer_deliverable :
    ∃ reply, encodeMessage (RelayMessage.delivery firstId .fetchGrantSet) = .ok reply ∧
      decodeMessage RelayMessage reply = .ok (.delivery firstId .fetchGrantSet) :=
  ((every_answer_deliverable leadingBytes [] idle alice firstId (.setFetchGrant bob true)
    ((serde ClientMessage).encode (.delivery firstId (.setFetchGrant bob true)))
    (by decide +kernel)).2.2.2.2 .fetchGrantSet (by decide +kernel)).2 fun _ _ _ => nofun

end Grotto.Relay.Answers
