/- GID: Grotto/Relay/Membership
   digest: Subscriptions trace back to a room's creator, and reads stay within them. -/

import Grotto.Relay.Recovery
import Mathlib.Data.List.Induction

set_option autoImplicit false

namespace Grotto.Relay.Membership

open Format.Varint (Bytes)
open Protocol.Records Protocol.Wire Protocol.Transcripts
open Storage Deliver Steps Invariant
open Pages

structure Notice where
  event : MessageId
  room : RoomId
  sequence : Nat
  inviter : UserId
  attachment : WelcomeAttachment
  deriving DecidableEq

def noticeOf (row : EventRow) : Option Notice :=
  match decodeMessage Event row.record with
  | .ok e => e.operation.welcome.map fun w => ⟨row.eventId, row.room, row.sequence, row.sender, w⟩
  | .error _ => none

/-- The invitation of a Welcome row, addressed to the row's recipient. -/
def noticeOfWelcome (row : WelcomeRow) : Option Notice :=
  match decodeMessage WelcomeDelivery row.record with
  | .ok w =>
    if w.attachment.recipient = row.recipient then
      some ⟨w.event, w.room, w.sequence.toNat, w.inviter, w.attachment⟩
    else none
  | .error _ => none

variable {row : EventRow}

theorem noticeOf_holds {e : Event} (holds : Holds row e) : noticeOf row =
    e.operation.welcome.map fun w => ⟨row.eventId, row.room, row.sequence, row.sender, w⟩ := by
  unfold noticeOf
  rw [holds.decoded]

theorem noticeOfWelcome_holds {row : WelcomeRow} {w : WelcomeDelivery} (holds : HoldsWelcome row w) :
    noticeOfWelcome row = some ⟨w.event, w.room, w.sequence.toNat, w.inviter, w.attachment⟩ := by
  unfold noticeOfWelcome
  rw [holds.decoded]
  exact if_pos holds.recipient

def Creates (db : Db) (room : RoomId) (user : UserId) : Prop :=
  ∃ row ∈ db.rooms, row.roomId = room ∧ row.createdBy = user

/-- The user is the recipient of the Welcome of an accepted event of the room. -/
def Welcomed (db : Db) (room : RoomId) (user : UserId) : Prop :=
  ∃ row ∈ db.deliveryEvents, ∃ notice, noticeOf row = some notice ∧ notice.room = room ∧
    notice.attachment.recipient = user

/-- Events of ever earlier sequences that lead from the creator of a room to a user. -/
inductive Chain (db : Db) (room : RoomId) : UserId → List EventRow → Prop
  | creator {row : RoomRow} (listed : row ∈ db.rooms) (named : row.roomId = room) :
      Chain db room row.createdBy []
  | invited {row : EventRow} {notice : Notice} {chain : List EventRow}
      (logged : row ∈ db.deliveryEvents) (place : row.room = room)
      (carries : noticeOf row = some notice)
      (later : ∀ earlier ∈ chain, earlier.sequence < row.sequence)
      (inviter : Chain db room row.sender chain) :
      Chain db room notice.attachment.recipient (row :: chain)

structure Members (db : Db) : Prop where
  notices : db.deliveryWelcomes.map noticeOfWelcome =
    (db.deliveryEvents.filterMap noticeOf).map some
  subscribed : ∀ room user, (room, user) ∈ db.roomSubscribers ↔
    Creates db room user ∨ Welcomed db room user
  traced : ∀ room user, (room, user) ∈ db.roomSubscribers → ∃ chain, Chain db room user chain
  senders : ∀ row ∈ db.deliveryEvents, (row.room, row.sender) ∈ db.roomSubscribers

theorem Members.empty : Members Db.empty := by
  refine ⟨rfl, fun room user => ⟨nofun, ?_⟩, nofun, nofun⟩
  rintro (⟨_, listed, -⟩ | ⟨_, listed, -⟩)
  · cases listed
  · cases listed

variable {db : Db} {room : RoomId} {user : UserId} {chain : List EventRow}

theorem Chain.rows (traced : Chain db room user chain) :
    ∀ row ∈ chain, row ∈ db.deliveryEvents ∧ row.room = room := by
  induction traced with
  | creator _ _ => nofun
  | invited logged place _ _ _ ih =>
    intro found listed
    rcases List.mem_cons.mp listed with rfl | rest
    · exact ⟨logged, place⟩
    · exact ih found rest

theorem Chain.decreasing (traced : Chain db room user chain) :
    (chain.map EventRow.sequence).Pairwise (· > ·) := by
  induction traced with
  | creator _ _ => exact List.Pairwise.nil
  | invited _ _ _ later _ ih =>
    refine List.pairwise_cons.mpr ⟨fun sequence listed => ?_, ih⟩
    obtain ⟨earlier, present, rfl⟩ := List.mem_map.mp listed
    exact later earlier present

variable {next : Db}

theorem Chain.mono (rooms : db.rooms ⊆ next.rooms)
    (events : db.deliveryEvents ⊆ next.deliveryEvents) (traced : Chain db room user chain) :
    Chain next room user chain := by
  induction traced with
  | creator listed named => exact .creator (rooms listed) named
  | invited logged place carries later _ ih => exact .invited (events logged) place carries later ih

/-- The tables of membership grow by rows that agree among themselves. -/
theorem Members.grow (members : Members db) {rooms : List RoomRow} {events : List EventRow}
    {welcomes : List WelcomeRow} (moreRooms : next.rooms = db.rooms ++ rooms)
    (moreEvents : next.deliveryEvents = db.deliveryEvents ++ events)
    (moreWelcomes : next.deliveryWelcomes = db.deliveryWelcomes ++ welcomes)
    (notices : welcomes.map noticeOfWelcome = (events.filterMap noticeOf).map some)
    (subscribers : ∀ room user, (room, user) ∈ next.roomSubscribers ↔
      (room, user) ∈ db.roomSubscribers ∨ (∃ row ∈ rooms, row.roomId = room ∧ row.createdBy = user) ∨
        ∃ row ∈ events, ∃ notice, noticeOf row = some notice ∧ notice.room = room ∧
          notice.attachment.recipient = user)
    (placed : ∀ row ∈ events, ∀ notice, noticeOf row = some notice → notice.room = row.room)
    (last : ∀ row ∈ events, ∀ old ∈ db.deliveryEvents, old.room = row.room → old.sequence < row.sequence)
    (senders : ∀ row ∈ events, (row.room, row.sender) ∈ db.roomSubscribers) : Members next := by
  have wider : db.rooms ⊆ next.rooms := by
    rw [moreRooms]
    exact List.subset_append_left _ _
  have longer : db.deliveryEvents ⊆ next.deliveryEvents := by
    rw [moreEvents]
    exact List.subset_append_left _ _
  refine ⟨?_, fun room user => ?_, fun room user listed => ?_, fun row logged => ?_⟩
  · rw [moreWelcomes, moreEvents, List.map_append, List.filterMap_append, List.map_append, notices,
      members.notices]
  · rw [subscribers, members.subscribed]
    unfold Creates Welcomed
    rw [moreRooms, moreEvents]
    simp only [List.mem_append, or_and_right, exists_or]
    exact or_or_or_comm
  · rcases (subscribers room user).mp listed
      with old | ⟨row, new, named, rfl⟩ | ⟨row, new, notice, carries, here, rfl⟩
    · obtain ⟨chain, traced⟩ := members.traced room user old
      exact ⟨chain, traced.mono wider longer⟩
    · refine ⟨[], .creator ?_ named⟩
      rw [moreRooms]
      exact List.mem_append_right _ new
    have place : row.room = room := (placed row new notice carries).symm.trans here
    obtain ⟨chain, traced⟩ := members.traced row.room row.sender (senders row new)
    rw [place] at traced
    refine ⟨row :: chain, .invited ?_ place carries (fun earlier present => ?_) (traced.mono wider longer)⟩
    · rw [moreEvents]
      exact List.mem_append_right _ new
    · obtain ⟨logged, same⟩ := traced.rows earlier present
      exact last row new earlier logged (same.trans place.symm)
  · rw [moreEvents] at logged
    refine (subscribers row.room row.sender).mpr (.inl ?_)
    rcases List.mem_append.mp logged with old | new
    · exact members.senders row old
    · exact senders row new

theorem Members.same (members : Members db) (rooms : next.rooms = db.rooms)
    (subscribers : next.roomSubscribers = db.roomSubscribers)
    (events : next.deliveryEvents = db.deliveryEvents)
    (welcomes : next.deliveryWelcomes = db.deliveryWelcomes) : Members next := by
  refine members.grow (rooms.trans (List.append_nil _).symm) (events.trans (List.append_nil _).symm)
    (welcomes.trans (List.append_nil _).symm) rfl (fun room user => ?_) nofun nofun nofun
  rw [subscribers]
  simp

theorem mem_subscribe {room place : RoomId} {user other : UserId} :
    (place, other) ∈ (db.subscribe room user).roomSubscribers ↔
      (place, other) ∈ db.roomSubscribers ∨ place = room ∧ other = user := by
  unfold Db.subscribe
  split
  · rename_i present
    refine ⟨.inl, ?_⟩
    rintro (old | ⟨rfl, rfl⟩)
    · exact old
    · exact isSubscribed_iff.mp present
  · simp [List.mem_append]

variable {id : MessageId}

theorem accepts_last {operation : Append} {record : Bytes} (log : Log db.deliveryEvents)
    (accepts : Accepts db user id operation record) :
    ∀ old ∈ db.deliveryEvents, old.room = operation.room → old.sequence < operation.parent.toNat + 1 := by
  intro old listed same
  have bound := (log.mem_iff operation.room old.sequence).mp ⟨old, listed, same, rfl⟩
  rw [← accepts.atHead, log.head_eq]
  exact Nat.lt_succ_of_le bound.2

variable {request : Request} {response : Response}

/-- Executing a request keeps subscriptions, log and Welcomes in agreement. -/
theorem Members.step (tables : Tables db) (members : Members db)
    (writes : Writes db user id request response next) : Members next := by
  cases writes with
  | rejected | read | acknowledged | conflict => exact members
  | packages | revoked | reserved => exact members.same rfl rfl rfl rfl
  | granted =>
    split
    · exact members
    · exact members.same rfl rfl rfl rfl
  | @room name normalized room normal fresh =>
    refine @Members.grow db _ members [⟨room, normalized, user⟩] [] [] (by simp) (by simp) (by simp)
      rfl (fun place other => ?_) nofun nofun nofun
    rw [mem_subscribe]
    simp [eq_comm]
  | @event operation record accepts plain =>
    have silent : noticeOf (eventRow user id operation record) = none := by
      rw [noticeOf_holds (accepts_holds accepts)]
      change operation.welcome.map _ = none
      rw [plain]
      rfl
    refine @Members.grow db _ members [] [eventRow user id operation record] [] (by simp) rfl (by simp)
      ?_ (fun place other => ?_) ?_ ?_ ?_
    · simp [silent]
    · simp [silent]
    · simp [silent]
    · exact List.forall_mem_singleton.mpr (accepts_last tables.log accepts)
    · exact List.forall_mem_singleton.mpr (isSubscribed_iff.mp accepts.subscribed)
  | @invitation operation record stored welcome room accepts attached found space kept =>
    have notice : noticeOf (eventRow user id operation record) =
        some ⟨id, operation.room, operation.parent.toNat + 1, user, welcome⟩ := by
      rw [noticeOf_holds (accepts_holds accepts)]
      change operation.welcome.map _ = some _
      rw [attached]
      rfl
    have delivered : noticeOfWelcome ⟨db.lastCursor + 1, welcome.recipient, stored⟩ =
        some ⟨id, operation.room, operation.parent.toNat + 1, user, welcome⟩ := by
      have name := tables.rooms.names room (List.mem_of_find?_eq_some found)
      rw [noticeOfWelcome_holds (holdsWelcome accepts attached name kept)]
      change some (Notice.mk id operation.room (UInt64.ofNat (operation.parent.toNat + 1)).toNat user
        welcome) = _
      rw [toNat_ofNat_i64 (admissible_of_not accepts.admissible).parent]
    refine @Members.grow db _ members [] [eventRow user id operation record]
      [⟨db.lastCursor + 1, welcome.recipient, stored⟩] (by simp) (by simp) (by simp)
      ?_ (fun place other => ?_) ?_ ?_ ?_
    · simp [notice, delivered]
    · rw [mem_subscribe]
      simp [notice, eq_comm]
    · refine List.forall_mem_singleton.mpr fun other same => ?_
      rw [← Option.some.inj (notice.symm.trans same)]
      rfl
    · exact List.forall_mem_singleton.mpr (accepts_last tables.log accepts)
    · exact List.forall_mem_singleton.mpr (isSubscribed_iff.mp accepts.subscribed)

theorem Members.deliver {sha256 : Hash} (valid : Valid sha256 db) (members : Members db)
    (here : Surroundings) (user : UserId) (id : MessageId) (request : Request) :
    Members (deliver sha256 here db user id request).2 := by
  have delivers := deliver_delivers sha256 here db user id request
  generalize (Grotto.Relay.Deliver.deliver sha256 here db user id request).1 = answer at delivers
  generalize (Grotto.Relay.Deliver.deliver sha256 here db user id request).2 = final at delivers ⊢
  cases delivers with
  | settled journals =>
    obtain ⟨_, _, next, _, _, -, -, writes, rfl⟩ := journals.witness
    exact (members.step valid.toTables writes).same rfl rfl rfl rfl
  | _ => exact members

theorem Members.runCalls {sha256 : Hash} (valid : Valid sha256 db) (members : Members db)
    (calls : List Call) : Members (runCalls sha256 db calls) := by
  induction calls generalizing db with
  | nil => exact members
  | cons c calls ih =>
    exact ih (valid.deliver c.here c.user c.id c.request)
      (members.deliver valid c.here c.user c.id c.request)

variable {here : Surroundings}

section Acceptance

variable {sha256 : Hash}

theorem new_event (logged : row ∈ (deliver sha256 here db user id request).2.deliveryEvents)
    (new : row ∉ db.deliveryEvents) :
    row.sender = user ∧ row.eventId = id ∧ db.isSubscribed row.room row.sender = true ∧
      ∃ e, (deliver sha256 here db user id request).1 = .ok (.appendAccepted e) ∧ Holds row e := by
  have delivers := deliver_delivers sha256 here db user id request
  generalize (deliver sha256 here db user id request).1 = answer at delivers ⊢
  generalize (deliver sha256 here db user id request).2 = final at delivers logged
  cases delivers with
  | settled journals =>
    obtain ⟨_, _, next, _, _, -, -, writes, rfl⟩ := journals.witness
    change row ∈ next.deliveryEvents at logged
    rcases Writes.events_eq writes journals.durable
      with ⟨same, -⟩ | ⟨operation, record, accepts, -, rfl, grown⟩
    · rw [same] at logged
      exact absurd logged new
    rw [grown] at logged
    rcases List.mem_append.mp logged with old | last
    · exact absurd old new
    · obtain rfl := List.mem_singleton.mp last
      exact ⟨rfl, rfl, accepts.subscribed, _, rfl, accepts_holds accepts⟩
  | _ => exact absurd logged new

theorem accepted_by_subscriber {calls : List Call}
    (logged : row ∈ (runCalls sha256 Db.empty calls).deliveryEvents) :
    ∃ before c after e, calls = before ++ c :: after ∧ c.user = row.sender ∧ c.id = row.eventId ∧
      c.answer sha256 (runCalls sha256 Db.empty before) = .ok (.appendAccepted e) ∧ Holds row e ∧
      row ∉ (runCalls sha256 Db.empty before).deliveryEvents ∧
      (runCalls sha256 Db.empty before).isSubscribed row.room row.sender = true := by
  induction calls using List.reverseRecOn with
  | nil => cases logged
  | append_singleton calls c ih =>
    by_cases old : row ∈ (runCalls sha256 Db.empty calls).deliveryEvents
    · obtain ⟨before, made, after, e, rfl, rest⟩ := ih old
      exact ⟨before, made, after ++ [c], e, by simp, rest⟩
    · rw [runCalls_concat] at logged
      obtain ⟨sender, id, subscribed, e, answer, holds⟩ := new_event logged old
      exact ⟨calls, c, [], e, rfl, sender.symm, id.symm, answer, holds, old, subscribed⟩

end Acceptance

section Reads

variable {sha256 : Hash}

def eventsIn : Response → List Event
  | .appendAccepted e => [e]
  | .roomEvents _ _ events _ => events
  | _ => []

def welcomesIn : Response → List WelcomeDelivery
  | .welcomes _ welcomes _ => welcomes
  | _ => []

/-- A response to `user` holds events of the user's rooms and Welcomes addressed to the user only. -/
def Confined (db : Db) (user : UserId) (response : Response) : Prop :=
  (∀ e ∈ eventsIn response, db.isSubscribed e.operation.room user = true) ∧
    ∀ w ∈ welcomesIn response, w.attachment.recipient = user

theorem confined_empty (events : eventsIn response = []) (welcomes : welcomesIn response = []) :
    Confined db user response := by
  unfold Confined
  rw [events, welcomes]
  exact ⟨fun _ listed => absurd listed List.not_mem_nil, fun _ listed => absurd listed List.not_mem_nil⟩

theorem confined_rejected (reason : Rejection) :
    Confined db user (.rejected reason) := confined_empty rfl rfl

theorem confined_roomEvents (tables : Tables db) {start : UInt64}
    (result : fetchRoomEvents db user room start = .ok response) : Confined db user response := by
  by_cases bound : start.toNat > i64Max
  · rw [fetchRoomEvents, if_pos bound] at result
    obtain rfl := Except.ok.inj result
    exact confined_rejected _
  by_cases subscribed : db.isSubscribed room user = true
  · obtain ⟨page, events, more, answer, reads, paged⟩ :=
      fetchRoomEvents_page tables subscribed (Nat.not_lt.mp bound)
    rw [answer] at result
    obtain rfl := Except.ok.inj result
    refine ⟨fun e listed => ?_, fun _ listed => absurd listed List.not_mem_nil⟩
    obtain ⟨row, inside, read⟩ := mem_of_reads reads listed
    obtain ⟨logged, place⟩ := List.mem_filter.mp (List.mem_filter.mp
      (paged.isPage.front.subset inside)).1
    obtain ⟨f, holds⟩ := tables.log.records row logged
    obtain rfl := Except.ok.inj (holds.decoded.symm.trans (decodeStored_ok.mp read))
    rw [holds.room, of_decide_eq_true place]
    exact subscribed
  · rw [fetchRoomEvents, if_neg bound, if_pos subscribed] at result
    obtain rfl := Except.ok.inj result
    exact confined_rejected _

theorem confined_welcomes (tables : Tables db) {start : UInt64}
    (result : fetchWelcomes db user start = .ok response) : Confined db user response := by
  by_cases bound : start.toNat > i64Max
  · rw [fetchWelcomes, if_pos bound] at result
    obtain rfl := Except.ok.inj result
    exact confined_rejected _
  obtain ⟨page, welcomes, more, answer, reads, paged⟩ :=
    fetchWelcomes_page tables user (Nat.not_lt.mp bound)
  rw [answer] at result
  obtain rfl := Except.ok.inj result
  refine ⟨fun _ listed => absurd listed List.not_mem_nil, fun w listed => ?_⟩
  obtain ⟨row, inside, read⟩ := mem_of_reads reads listed
  obtain ⟨stored, addressed⟩ := List.mem_filter.mp (List.mem_filter.mp
    (paged.isPage.front.subset inside)).1
  obtain ⟨v, holds, -⟩ := tables.welcomes.records row stored
  rw [readWelcome, decodeStored_ok.mpr holds.decoded] at read
  obtain rfl := Except.ok.inj read
  exact holds.recipient.trans (of_decide_eq_true addressed)

theorem confined_read (tables : Tables db) (read : request.isRead = true)
    (executed : execute here db user id request = .ok (response, next)) :
    Confined db user response := by
  cases request with
  | fetchRoomEvents room start => exact confined_roomEvents tables (map_unchanged executed).1
  | fetchWelcomes start => exact confined_welcomes tables (map_unchanged executed).1
  | syncIndex start =>
    obtain rfl := (Prod.mk.inj (Except.ok.inj executed)).1
    exact confined_empty rfl rfl
  | _ => simp [Request.isRead] at read

theorem confined_plain (plain : isPage response = false)
    (own : ∀ e, response = .appendAccepted e → db.isSubscribed e.operation.room user = true) :
    Confined db user response := by
  cases response with
  | appendAccepted e =>
    refine ⟨fun found listed => ?_, fun _ listed => absurd listed List.not_mem_nil⟩
    rw [List.mem_singleton.mp listed]
    exact own e rfl
  | roomEvents | welcomes => simp [isPage] at plain
  | _ => exact confined_empty rfl rfl

theorem confined_answer (valid : Valid sha256 db) (members : Members db)
    (answer : (deliver sha256 here db user id request).1 = .ok response) :
    Confined db user response := by
  have delivers := deliver_delivers sha256 here db user id request
  rw [answer] at delivers
  generalize (deliver sha256 here db user id request).2 = final at delivers
  cases delivers with
  | conflicting => exact confined_rejected _
  | unsettled => exact confined_rejected _
  | @replayed wire row _ encoded saved same decoded =>
    obtain ⟨present, rfl, -⟩ := savedRequest_some saved
    obtain ⟨_, replay, result⟩ := valid.journal.results row present
    obtain rfl := Except.ok.inj (result.decoded.symm.trans decoded)
    refine confined_plain result.plain fun e accepted => ?_
    obtain ⟨-, -, sender, log, logged, holds⟩ := result.recorded e accepted
    have subscribed := isSubscribed_iff.mpr (members.senders log logged)
    rw [← holds.room, ← holds.sender, sender] at subscribed
    exact subscribed
  | answered read unused executed => exact confined_read valid.toTables read executed
  | settled journals =>
    obtain ⟨_, _, next, _, _, -, -, writes, rfl⟩ := journals.witness
    refine confined_plain (writes.not_page journals.durable) fun e accepted => ?_
    rcases Writes.events_eq writes journals.durable with ⟨-, none⟩ | ⟨operation, record, accepts, -, same, -⟩
    · exact absurd accepted (none e)
    · obtain rfl := Response.appendAccepted.inj (accepted.symm.trans same)
      exact accepts.subscribed

end Reads

section Subscribers

/-- In every state the calls can reach: the subscribers of a room are its creator and the recipients
of its accepted Welcomes; each accepted event's sender was subscribed when it was accepted, so that a
chain of ever earlier events leads from every subscriber to the creator; the Welcome rows are those of
the accepted events that carry one, in order; and what the relay answers a user is from the user's
rooms and addressed to the user. -/
theorem membership_provenance (sha256 : Hash) (calls : List Call) :
    (∀ room user, (runCalls sha256 Db.empty calls).isSubscribed room user = true ↔
      Creates (runCalls sha256 Db.empty calls) room user ∨
        Welcomed (runCalls sha256 Db.empty calls) room user) ∧
    (∀ row ∈ (runCalls sha256 Db.empty calls).deliveryEvents,
      ∃ before c after e, calls = before ++ c :: after ∧ c.user = row.sender ∧ c.id = row.eventId ∧
        c.answer sha256 (runCalls sha256 Db.empty before) = .ok (.appendAccepted e) ∧ Holds row e ∧
        row ∉ (runCalls sha256 Db.empty before).deliveryEvents ∧
        (runCalls sha256 Db.empty before).isSubscribed row.room row.sender = true) ∧
    (∀ room user, (runCalls sha256 Db.empty calls).isSubscribed room user = true →
      ∃ chain, Chain (runCalls sha256 Db.empty calls) room user chain ∧
        (chain.map EventRow.sequence).Pairwise (· > ·)) ∧
    ((runCalls sha256 Db.empty calls).deliveryWelcomes.map noticeOfWelcome =
        ((runCalls sha256 Db.empty calls).deliveryEvents.filterMap noticeOf).map some ∧
      ((runCalls sha256 Db.empty calls).deliveryEvents.map EventRow.eventId).Nodup) ∧
    ∀ here user id request response,
      (deliver sha256 here (runCalls sha256 Db.empty calls) user id request).1 = .ok response →
      (∀ e ∈ eventsIn response,
        (runCalls sha256 Db.empty calls).isSubscribed e.operation.room user = true) ∧
      ∀ w ∈ welcomesIn response, w.attachment.recipient = user := by
  have valid := (Valid.empty sha256).runCalls calls
  have members := Members.empty.runCalls (Valid.empty sha256) calls
  refine ⟨fun room user => ?_, fun row logged => accepted_by_subscriber logged,
    fun room user subscribed => ?_, ⟨members.notices, valid.log.ids⟩, ?_⟩
  · rw [isSubscribed_iff]
    exact members.subscribed room user
  · obtain ⟨chain, traced⟩ := members.traced room user (isSubscribed_iff.mp subscribed)
    exact ⟨chain, traced, traced.decreasing⟩
  · intro here user id request response answer
    exact confined_answer valid members answer

end Subscribers

end Grotto.Relay.Membership
