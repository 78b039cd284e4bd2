/- GID: Grotto/Relay/Invariant
   digest: The relay tables stay well formed under every delivery call. -/

import Grotto.Relay.Steps
import Grotto.Protocol.Sizes

set_option autoImplicit false

namespace Grotto.Relay.Invariant

open Format.Varint
open Format.Postcard (size_u64_le)
open Protocol.Records Protocol.Wire Protocol.Transcripts Protocol.Sizes
open Storage Deliver Steps

structure Admissible (operation : Append) : Prop where
  nonempty : operation.body ≠ []
  body : operation.body.length ≤ maxMlsBlobBytes
  parent : operation.parent.toNat < i64Max
  welcome : ∀ w, operation.welcome = some w → w.body ≠ [] ∧ w.body.length ≤ maxMlsBlobBytes
  total : operation.body.length + (operation.welcome.map fun w => w.body.length).getD 0 + 256 ≤
    maxPayload

variable {operation : Append}

theorem admissible_of_not (passed : inadmissible operation = false) : Admissible operation := by
  unfold inadmissible at passed
  simp only [Bool.or_eq_false_iff, decide_eq_false_iff_not, List.isEmpty_eq_false_iff] at passed
  obtain ⟨⟨⟨⟨nonempty, body⟩, parent⟩, welcome⟩, total⟩ := passed
  refine ⟨nonempty, by omega, by omega, fun w attached => ?_, by omega⟩
  rw [attached] at welcome
  simpa using welcome

theorem Admissible.bodies (passed : Admissible operation) : BodiesWithin wire.body operation :=
  ⟨passed.body, fun w attached => (passed.welcome w attached).2⟩

theorem varintSize_i64 {n : Nat} (bound : n ≤ i64Max) : varintSize 10 n ≤ 9 := by
  unfold i64Max at bound
  exact varintSize_le (k := 8) (by omega)

theorem varintSize_body {n : Nat} (bound : n ≤ maxMlsBlobBytes) : varintSize 10 n ≤ 3 := by
  unfold maxMlsBlobBytes at bound
  exact varintSize_le (k := 2) (by omega)

variable {e : Event}

theorem size_event_le (passed : Admissible e.operation) : wireSize e + 101 ≤ maxPayload := by
  have parent := varintSize_i64 (Nat.le_of_lt passed.parent)
  have epoch := size_u64_le e.operation.epoch
  have body := varintSize_body passed.body
  have total := passed.total
  have size : wireSize e = 32 + (append wire).size e.operation := size_event wire e
  rw [size, size_append]
  cases attached : e.operation.welcome with
  | none =>
    simp only [attached, Option.map_none, Option.getD_none] at total
    simp only [welcomeSize]
    omega
  | some w =>
    have attachment := varintSize_body (passed.welcome w attached).2
    simp only [attached, Option.map_some, Option.getD_some] at total
    simp only [welcomeSize]
    omega

structure Holds (row : EventRow) (e : Event) : Prop where
  encoded : encodeMessage e = .ok row.record
  decoded : decodeMessage Event row.record = .ok e
  id : e.id = row.eventId
  sender : e.sender = row.sender
  room : e.operation.room = row.room
  parent : e.operation.parent.toNat + 1 = row.sequence
  admissible : Admissible e.operation

variable {row : EventRow}

theorem Holds.unique {e f : Event} (left : Holds row e) (right : Holds row f) : e = f := by
  have equal := left.decoded
  rw [right.decoded] at equal
  exact (Except.ok.inj equal).symm

theorem Holds.sequence_le (holds : Holds row e) : row.sequence ≤ i64Max := by
  have parent := holds.admissible.parent
  have next := holds.parent
  omega

variable {id : MessageId} {user : UserId} {db : Db}

theorem accepts_holds {record : Bytes} (accepts : Accepts db user id operation record) :
    Holds (eventRow user id operation record) ⟨id, user, operation⟩ := by
  have passed := admissible_of_not accepts.admissible
  refine ⟨accepts.encoded, ?_, rfl, rfl, rfl, rfl, passed⟩
  exact decodeMessage_encodeMessage accepts.encoded
    ((bounded_event (by decide) _).mpr passed.bodies)

abbrev ofRoom (events : List EventRow) (room : RoomId) : List EventRow :=
  events.filter fun row => row.room = room

/-- The log: in every room consecutive sequences from one, readable records, unique event ids. -/
structure Log (events : List EventRow) : Prop where
  sequences : ∀ room, (ofRoom events room).map EventRow.sequence =
    List.range' 1 (ofRoom events room).length
  records : ∀ row ∈ events, ∃ e, Holds row e
  ids : (events.map EventRow.eventId).Nodup

theorem Log.empty : Log [] := ⟨fun _ => rfl, by simp, List.nodup_nil⟩

variable {events : List EventRow}

theorem Log.append (log : Log events) (holds : Holds row e)
    (next : row.sequence = (ofRoom events row.room).length + 1)
    (fresh : ∀ r ∈ events, r.eventId ≠ row.eventId) : Log (events ++ [row]) := by
  refine ⟨fun room => ?_, ?_, ?_⟩
  · rw [ofRoom, List.filter_append]
    by_cases same : row.room = room
    · subst same
      have last : [row].filter (fun r => decide (r.room = row.room)) = [row] := by simp
      rw [last, List.map_append, List.length_append, log.sequences row.room, List.map_singleton,
        next, List.length_singleton, List.range'_concat]
      simp [Nat.add_comm]
    · have last : [row].filter (fun r => decide (r.room = room)) = [] := by simp [same]
      rw [last, List.append_nil]
      exact log.sequences room
  · intro r member
    rcases List.mem_append.mp member with old | new
    · exact log.records r old
    · obtain rfl := List.mem_singleton.mp new
      exact ⟨e, holds⟩
  · rw [List.map_append, List.map_singleton]
    refine List.Nodup.append log.ids (List.nodup_singleton _) ?_
    intro i old new
    obtain rfl := List.mem_singleton.mp new
    obtain ⟨r, member, equal⟩ := List.mem_map.mp old
    exact fresh r member equal

private theorem foldl_max_range' (n : Nat) : (List.range' 1 n).foldl max 0 = n := by
  induction n with
  | zero => rfl
  | succ n ih =>
    rw [List.range'_concat, List.foldl_append, ih]
    simp
    omega

theorem Log.head_eq (log : Log db.deliveryEvents) (room : RoomId) :
    db.head room = (ofRoom db.deliveryEvents room).length := by
  unfold Db.head
  rw [log.sequences room, foldl_max_range']

theorem Log.row_unique (log : Log events) {a b : EventRow} (left : a ∈ events)
    (right : b ∈ events) (room : a.room = b.room) (sequence : a.sequence = b.sequence) : a = b := by
  have nodup : ((ofRoom events b.room).map EventRow.sequence).Nodup := by
    rw [log.sequences b.room]
    exact List.nodup_range'
  have inside : ∀ r ∈ events, r.room = b.room → r ∈ ofRoom events b.room :=
    fun r member same => List.mem_filter.mpr ⟨member, by simpa using same⟩
  exact List.inj_on_of_nodup_map nodup (inside a left room) (inside b right rfl) sequence

theorem Log.row_of_id (log : Log events) {a b : EventRow} (left : a ∈ events) (right : b ∈ events)
    (id : a.eventId = b.eventId) : a = b :=
  List.inj_on_of_nodup_map log.ids left right id

theorem Log.mem_iff (log : Log events) (room : RoomId) (s : Nat) :
    (∃ row ∈ events, row.room = room ∧ row.sequence = s) ↔
      1 ≤ s ∧ s ≤ (ofRoom events room).length := by
  have listed : s ∈ (ofRoom events room).map EventRow.sequence ↔
      1 ≤ s ∧ s < 1 + (ofRoom events room).length := by
    rw [log.sequences room, List.mem_range'_1]
  constructor
  · rintro ⟨row, member, same, rfl⟩
    have inside : row ∈ ofRoom events room := List.mem_filter.mpr ⟨member, by simpa using same⟩
    have bounds := listed.mp (List.mem_map_of_mem inside)
    omega
  · intro bounds
    obtain ⟨row, inside, equal⟩ := List.mem_map.mp (listed.mpr (by omega))
    obtain ⟨member, same⟩ := List.mem_filter.mp inside
    exact ⟨row, member, by simpa using same, equal⟩

theorem insertEvent_next (log : Log db.deliveryEvents) (row : EventRow)
    (next : row.sequence = db.head row.room + 1) (bound : row.sequence ≤ i64Max)
    (fresh : db.hasEvent row.eventId = false) :
    db.insertEvent row = .ok { db with deliveryEvents := db.deliveryEvents ++ [row] } := by
  unfold Db.insertEvent bindU64
  rw [if_pos bound]
  refine if_neg fun taken => ?_
  obtain ⟨other, listed, clash⟩ := List.any_eq_true.mp taken
  rcases of_decide_eq_true clash with ⟨room, sequence⟩ | same
  · have within := ((log.mem_iff row.room row.sequence).mp ⟨other, listed, room, sequence⟩).2
    rw [← log.head_eq, next] at within
    omega
  · have found : db.hasEvent row.eventId = true :=
      List.any_eq_true.mpr ⟨other, listed, decide_eq_true same⟩
    rw [fresh] at found
    cases found

theorem Log.head_le (log : Log db.deliveryEvents) (room : RoomId) : db.head room ≤ i64Max := by
  rcases Nat.eq_zero_or_pos (db.head room) with zero | positive
  · rw [zero]
    exact Nat.zero_le _
  obtain ⟨row, member, -, same⟩ := (log.mem_iff room (db.head room)).mpr
    ⟨positive, (log.head_eq room).le⟩
  obtain ⟨e, holds⟩ := log.records row member
  rw [← same]
  exact holds.sequence_le

structure Invites (e : Event) (w : WelcomeDelivery) : Prop where
  event : e.id = w.event
  inviter : e.sender = w.inviter
  room : e.operation.room = w.room
  sequence : e.operation.parent.toNat + 1 = w.sequence.toNat
  attachment : e.operation.welcome = some w.attachment

structure HoldsWelcome (row : WelcomeRow) (w : WelcomeDelivery) : Prop where
  encoded : encodeMessage w = .ok row.record
  decoded : decodeMessage WelcomeDelivery row.record = .ok w
  cursor : w.cursor = 0
  recipient : w.attachment.recipient = row.recipient
  name : normalizeRoomName w.roomName = .ok w.roomName
  body : w.attachment.body.length ≤ maxMlsBlobBytes

/-- Welcomes: consecutive cursors from one, readable records, each of an event in the log. -/
structure Welcomes (events : List EventRow) (welcomes : List WelcomeRow) : Prop where
  cursors : welcomes.map WelcomeRow.cursor = List.range' 1 welcomes.length
  space : welcomes.length ≤ i64Max
  records : ∀ row ∈ welcomes, ∃ w, HoldsWelcome row w ∧
    ∃ log ∈ events, ∃ e, Holds log e ∧ Invites e w

theorem Welcomes.empty : Welcomes [] [] := ⟨rfl, Nat.zero_le _, by simp⟩

theorem Welcomes.lastCursor_eq (inbox : Welcomes db.deliveryEvents db.deliveryWelcomes) :
    db.lastCursor = db.deliveryWelcomes.length := by
  unfold Db.lastCursor
  rw [inbox.cursors, foldl_max_range']

variable {welcomes : List WelcomeRow}

theorem Welcomes.cursor_le (inbox : Welcomes events welcomes) {row : WelcomeRow}
    (member : row ∈ welcomes) : row.cursor ≤ i64Max := by
  have listed : row.cursor ∈ welcomes.map WelcomeRow.cursor := List.mem_map_of_mem member
  rw [inbox.cursors, List.mem_range'_1] at listed
  have space := inbox.space
  omega

variable {more : List EventRow}

theorem Welcomes.mono (inbox : Welcomes events welcomes) (subset : events ⊆ more) :
    Welcomes more welcomes := by
  refine ⟨inbox.cursors, inbox.space, fun row member => ?_⟩
  obtain ⟨w, holds, log, inside, e, rest⟩ := inbox.records row member
  exact ⟨w, holds, log, subset inside, e, rest⟩

theorem Welcomes.append (inbox : Welcomes events welcomes) {row : WelcomeRow}
    {w : WelcomeDelivery} {log : EventRow} (holds : HoldsWelcome row w)
    (next : row.cursor = welcomes.length + 1) (space : row.cursor ≤ i64Max)
    (logged : log ∈ events) (event : Holds log e) (invites : Invites e w) :
    Welcomes events (welcomes ++ [row]) := by
  refine ⟨?_, by simp; omega, fun r member => ?_⟩
  · rw [List.map_append, inbox.cursors, List.map_singleton, next, List.length_append,
      List.length_singleton, List.range'_concat]
    simp [Nat.add_comm]
  · rcases List.mem_append.mp member with old | new
    · exact inbox.records r old
    · obtain rfl := List.mem_singleton.mp new
      exact ⟨w, holds, log, logged, e, event, invites⟩

/-- Rooms and subscriptions: keyed rows, normalized names, subscriptions of existing rooms. -/
structure Rooms (rooms : List RoomRow) (subscribers : List (RoomId × UserId)) : Prop where
  ids : (rooms.map RoomRow.roomId).Nodup
  names : ∀ r ∈ rooms, normalizeRoomName r.name = .ok r.name
  keys : subscribers.Nodup
  known : ∀ s ∈ subscribers, ∃ r ∈ rooms, r.roomId = s.1

theorem Rooms.empty : Rooms [] [] := ⟨List.nodup_nil, by simp, List.nodup_nil, by simp⟩

theorem Rooms.create {rooms : List RoomRow} {subscribers : List (RoomId × UserId)}
    (valid : Rooms rooms subscribers) {row : RoomRow} (fresh : ∀ r ∈ rooms, r.roomId ≠ row.roomId)
    (name : normalizeRoomName row.name = .ok row.name) : Rooms (rooms ++ [row]) subscribers := by
  refine ⟨?_, ?_, valid.keys, ?_⟩
  · rw [List.map_append, List.map_singleton]
    refine List.Nodup.append valid.ids (List.nodup_singleton _) ?_
    intro i old new
    obtain rfl := List.mem_singleton.mp new
    obtain ⟨r, member, equal⟩ := List.mem_map.mp old
    exact fresh r member equal
  · intro r member
    rcases List.mem_append.mp member with old | new
    · exact valid.names r old
    · obtain rfl := List.mem_singleton.mp new
      exact name
  · intro s member
    obtain ⟨r, inside, equal⟩ := valid.known s member
    exact ⟨r, List.mem_append_left _ inside, equal⟩

theorem isSubscribed_iff {room : RoomId} :
    db.isSubscribed room user = true ↔ (room, user) ∈ db.roomSubscribers := by
  simp [Db.isSubscribed]

theorem Rooms.subscribe (db : Db) (valid : Rooms db.rooms db.roomSubscribers) {room : RoomId}
    (user : UserId) (exists_room : ∃ r ∈ db.rooms, r.roomId = room) :
    Rooms db.rooms (db.subscribe room user).roomSubscribers := by
  unfold Db.subscribe
  split
  · exact valid
  rename_i absent
  rw [isSubscribed_iff] at absent
  refine ⟨valid.ids, valid.names, ?_, ?_⟩
  · refine List.Nodup.append valid.keys (List.nodup_singleton _) ?_
    intro s old new
    obtain rfl := List.mem_singleton.mp new
    exact absent old
  · intro s member
    rcases List.mem_append.mp member with old | new
    · exact valid.known s old
    · obtain rfl := List.mem_singleton.mp new
      exact exists_room

def Packages (packages : List KeyPackageRow) : Prop :=
  ∀ row ∈ packages, row.keyPackage ≠ [] ∧ row.keyPackage.length ≤ maxKeyPackageBytes

structure Tables (db : Db) : Prop where
  log : Log db.deliveryEvents
  welcomes : Welcomes db.deliveryEvents db.deliveryWelcomes
  rooms : Rooms db.rooms db.roomSubscribers
  packages : Packages db.keyPackages

theorem Tables.empty : Tables Db.empty :=
  ⟨Log.empty, Welcomes.empty, Rooms.empty, fun _ member => nomatch member⟩

private theorem hasEvent_false (fresh : db.hasEvent id = false) :
    ∀ r ∈ db.deliveryEvents, r.eventId ≠ id := by
  intro r member equal
  have found : db.hasEvent id = true := by
    simp only [Db.hasEvent, List.any_eq_true, decide_eq_true_eq]
    exact ⟨r, member, equal⟩
  rw [fresh] at found
  exact Bool.false_ne_true found

theorem accepts_log {record : Bytes}
    (accepts : Accepts db user id operation record) (log : Log db.deliveryEvents) :
    Log (db.deliveryEvents ++ [eventRow user id operation record]) := by
  refine log.append (accepts_holds accepts) ?_ (hasEvent_false accepts.fresh)
  change operation.parent.toNat + 1 = _
  rw [← accepts.atHead, log.head_eq]
  rfl

variable {welcome : WelcomeAttachment}

theorem holdsWelcome {record stored : Bytes} {room : RoomRow} {cursor : Nat}
    (accepts : Accepts db user id operation record) (attached : operation.welcome = some welcome)
    (name : normalizeRoomName room.name = .ok room.name)
    (kept : encodeMessage (welcomeOf room.name user id operation welcome) = .ok stored) :
    HoldsWelcome ⟨cursor, welcome.recipient, stored⟩
      (welcomeOf room.name user id operation welcome) := by
  have body := ((admissible_of_not accepts.admissible).welcome welcome attached).2
  refine ⟨kept, ?_, rfl, rfl, name, body⟩
  exact decodeMessage_encodeMessage kept
    ((bounded_welcomeDelivery (by decide) (by decide) _).mpr ⟨normalizeRoomName_size name, body⟩)

private theorem invites {name : String}
    (attached : operation.welcome = some welcome) (bound : operation.parent.toNat < i64Max) :
    Invites ⟨id, user, operation⟩ (welcomeOf name user id operation welcome) := by
  refine ⟨rfl, rfl, rfl, ?_, attached⟩
  exact (toNat_ofNat_i64 bound).symm

variable {request : Request} {response : Response} {db next : Db}

/-- Executing a request keeps the tables well formed. -/
theorem Tables.step (tables : Tables db)
    (writes : Writes db user id request response next) : Tables next := by
  cases writes with
  | rejected | read | acknowledged | conflict => exact tables
  | @room name normalized room normal fresh =>
    have created : Rooms (db.rooms ++ [⟨room, normalized, user⟩]) db.roomSubscribers :=
      tables.rooms.create fresh (normalizeRoomName_idempotent normal)
    refine ⟨by simpa using tables.log, by simpa using tables.welcomes, ?_,
      by simpa using tables.packages⟩
    rw [subscribe_rooms]
    exact Rooms.subscribe { db with rooms := db.rooms ++ [⟨room, normalized, user⟩] }
      created user ⟨_, List.mem_append_right _ (List.mem_singleton_self _), rfl⟩
  | packages sized few =>
    refine ⟨tables.log, tables.welcomes, tables.rooms, fun row member => ?_⟩
    rcases List.mem_append.mp member with old | new
    · exact tables.packages row old
    · obtain ⟨package, inside, rfl⟩ := List.mem_map.mp new
      exact sized package inside
  | granted =>
    split
    · exact tables
    · exact ⟨tables.log, tables.welcomes, tables.rooms, tables.packages⟩
  | revoked => exact ⟨tables.log, tables.welcomes, tables.rooms, tables.packages⟩
  | reserved granted found =>
    exact ⟨tables.log, tables.welcomes, tables.rooms,
      fun row member => tables.packages row (List.mem_of_mem_eraseP member)⟩
  | event accepts plain =>
    exact ⟨accepts_log accepts tables.log, tables.welcomes.mono (List.subset_append_left _ _),
      tables.rooms, tables.packages⟩
  | @invitation operation record stored welcome room accepts attached found space kept =>
    have member : room ∈ db.rooms := List.mem_of_find?_eq_some found
    have same : room.roomId = operation.room := by simpa using List.find?_some found
    have passed := admissible_of_not accepts.admissible
    refine ⟨by simpa using accepts_log accepts tables.log, ?_, ?_, by simpa using tables.packages⟩
    · rw [subscribe_events, subscribe_welcomes]
      refine (tables.welcomes.mono (List.subset_append_left _ _)).append
        (holdsWelcome accepts attached (tables.rooms.names room member) kept) ?_ space
        (List.mem_append_right _ (List.mem_singleton_self _)) (accepts_holds accepts)
        (invites attached passed.parent)
      change db.lastCursor + 1 = _
      rw [tables.welcomes.lastCursor_eq]
    · rw [subscribe_rooms]
      exact Rooms.subscribe
        { db with
          deliveryEvents := db.deliveryEvents ++ [eventRow user id operation record]
          deliveryWelcomes := db.deliveryWelcomes ++
            [⟨db.lastCursor + 1, welcome.recipient, stored⟩] }
        tables.rooms welcome.recipient ⟨room, member, same⟩

def Recorded (events : List EventRow) (row : RequestRow) (request : Request)
    (response : Response) : Prop :=
  ∀ e, response = .appendAccepted e → request = .appendRoomOperation e.operation ∧
    e.id = row.requestId ∧ e.sender = row.userId ∧ ∃ log ∈ events, Holds log e

/-- A journal row: the digest of its request and the settled, readable response to it. -/
structure Result (sha256 : Hash) (events : List EventRow) (row : RequestRow) (request : Request)
    (response : Response) : Prop where
  hash : ∃ wire, encodeMessage request = .ok wire ∧ row.hash = sha256 wire
  encoded : encodeMessage response = .ok row.response
  decoded : decodeMessage Response row.response = .ok response
  durable : request.isRead = false
  settles : Settles request response
  fits : 18 + fieldsSize response ≤ maxPayload
  plain : isPage response = false
  recorded : Recorded events row request response

/-- The result journal: one row for an identifier, and the row of every event in the log. -/
structure Journal (sha256 : Hash) (requests : List RequestRow) (events : List EventRow) :
    Prop where
  keys : (requests.map fun row => (row.userId, row.requestId)).Nodup
  results : ∀ row ∈ requests, ∃ request response, Result sha256 events row request response
  accepted : ∀ log ∈ events, ∀ e, Holds log e → ∃ row ∈ requests,
    row.userId = e.sender ∧ row.requestId = e.id ∧
    decodeMessage Response row.response = .ok (.appendAccepted e)

theorem Journal.empty (sha256 : Hash) : Journal sha256 [] [] :=
  ⟨List.nodup_nil, by simp, by simp⟩

variable {sha256 : Hash}

theorem Result.mono {row : RequestRow} (result : Result sha256 events row request response)
    (subset : events ⊆ more) : Result sha256 more row request response := by
  refine ⟨result.hash, result.encoded, result.decoded, result.durable, result.settles,
    result.fits, result.plain, ?_⟩
  intro e accepted
  obtain ⟨operation, id, sender, log, inside, holds⟩ := result.recorded e accepted
  exact ⟨operation, id, sender, log, subset inside, holds⟩

theorem Journal.append {requests : List RequestRow} (journal : Journal sha256 requests events)
    (subset : events ⊆ more) {row : RequestRow}
    (unused : ∀ r ∈ requests, (r.userId, r.requestId) ≠ (row.userId, row.requestId))
    (result : Result sha256 more row request response)
    (new : ∀ log ∈ more, log ∉ events → ∀ e, Holds log e →
      row.userId = e.sender ∧ row.requestId = e.id ∧ response = .appendAccepted e) :
    Journal sha256 (requests ++ [row]) more := by
  refine ⟨?_, ?_, ?_⟩
  · rw [List.map_append, List.map_singleton]
    refine List.Nodup.append journal.keys (List.nodup_singleton _) ?_
    intro key old last
    obtain rfl := List.mem_singleton.mp last
    obtain ⟨r, member, equal⟩ := List.mem_map.mp old
    exact unused r member equal
  · intro r member
    rcases List.mem_append.mp member with old | last
    · obtain ⟨request, response, earlier⟩ := journal.results r old
      exact ⟨request, response, earlier.mono subset⟩
    · obtain rfl := List.mem_singleton.mp last
      exact ⟨request, response, result⟩
  · intro log member e holds
    by_cases old : log ∈ events
    · obtain ⟨r, inside, rest⟩ := journal.accepted log old e holds
      exact ⟨r, List.mem_append_left _ inside, rest⟩
    · obtain ⟨sender, id, accepted⟩ := new log member old e holds
      exact ⟨row, List.mem_append_right _ (List.mem_singleton_self _), sender, id,
        accepted ▸ result.decoded⟩

theorem savedRequest_none (unused : db.savedRequest user id = none) :
    ∀ row ∈ db.deliveryRequests, (row.userId, row.requestId) ≠ (user, id) := by
  intro row member equal
  have absent := List.find?_eq_none.mp unused row member
  obtain ⟨rfl, rfl⟩ := Prod.mk.inj equal
  simp at absent

theorem savedRequest_some {row : RequestRow} (saved : db.savedRequest user id = some row) :
    row ∈ db.deliveryRequests ∧ row.userId = user ∧ row.requestId = id := by
  refine ⟨List.mem_of_find?_eq_some saved, ?_⟩
  simpa using List.find?_some saved

theorem Journal.savedRequest_of_mem
    (journal : Journal sha256 db.deliveryRequests db.deliveryEvents) (row : RequestRow)
    (member : row ∈ db.deliveryRequests) : db.savedRequest row.userId row.requestId = some row := by
  cases saved : db.savedRequest row.userId row.requestId with
  | none => exact absurd rfl (savedRequest_none saved row member)
  | some found =>
    obtain ⟨inside, user, id⟩ := savedRequest_some saved
    refine congrArg some (List.inj_on_of_nodup_map journal.keys inside member ?_)
    rw [user, id]

structure Valid (sha256 : Hash) (db : Db) : Prop extends Tables db where
  journal : Journal sha256 db.deliveryRequests db.deliveryEvents

theorem Valid.empty (sha256 : Hash) : Valid sha256 Db.empty :=
  ⟨Tables.empty, Journal.empty sha256⟩

theorem Writes.within (tables : Tables db)
    (writes : Writes db user id request response next) (durable : request.isRead = false) :
    FieldsWithin response := by
  cases writes with
  | read read =>
    rw [durable] at read
    exact absurd read Bool.false_ne_true
  | reserved granted found =>
    exact (tables.packages _ (List.mem_of_find?_eq_some found)).2
  | event accepts plain => exact (admissible_of_not accepts.admissible).bodies
  | invitation accepts attached found space kept =>
    exact (admissible_of_not accepts.admissible).bodies
  | _ => trivial

theorem Writes.fits (tables : Tables db)
    (writes : Writes db user id request response next) (durable : request.isRead = false) :
    18 + fieldsSize response ≤ maxPayload := by
  have payload : maxPayload = 786432 := rfl
  have accepted : ∀ {operation : Append}, inadmissible operation = false →
      18 + fieldsSize (.appendAccepted ⟨id, user, operation⟩) ≤ maxPayload := by
    intro operation passed
    have size : fieldsSize (.appendAccepted ⟨id, user, operation⟩) + 101 ≤ maxPayload :=
      size_event_le (e := ⟨id, user, operation⟩) (admissible_of_not passed)
    omega
  cases writes with
  | read read =>
    rw [durable] at read
    exact absurd read Bool.false_ne_true
  | reserved granted found =>
    have sized := (tables.packages _ (List.mem_of_find?_eq_some found)).2
    have length := varintSize_body (Nat.le_trans sized (by decide))
    have small : maxKeyPackageBytes = 16384 := rfl
    simp only [fieldsSize]
    omega
  | @conflict operation stale =>
    have head := size_u64_le (UInt64.ofNat (db.head operation.room))
    simp only [fieldsSize]
    omega
  | @packages packages sized few =>
    have count := size_u64_le (UInt64.ofNat packages.length)
    simp only [fieldsSize]
    omega
  | event accepts plain => exact accepted accepts.admissible
  | invitation accepts attached found space kept => exact accepted accepts.admissible
  | rejected | acknowledged | room | granted | revoked =>
    simp only [fieldsSize]
    omega

theorem Writes.events_eq
    (writes : Writes db user id request response next) (durable : request.isRead = false) :
    (next.deliveryEvents = db.deliveryEvents ∧ ∀ e, response ≠ .appendAccepted e) ∨
      ∃ operation record, Accepts db user id operation record ∧
        request = .appendRoomOperation operation ∧
        response = .appendAccepted ⟨id, user, operation⟩ ∧
        next.deliveryEvents = db.deliveryEvents ++ [eventRow user id operation record] := by
  cases writes with
  | read read =>
    rw [durable] at read
    exact absurd read Bool.false_ne_true
  | @event operation record accepts plain => exact .inr ⟨operation, record, accepts, rfl, rfl, rfl⟩
  | @invitation operation record _ _ _ accepts =>
    exact .inr ⟨operation, record, accepts, rfl, rfl, subscribe_events _ _ _⟩
  | room => exact .inl ⟨subscribe_events _ _ _, by simp⟩
  | granted => exact .inl ⟨by split <;> rfl, by simp⟩
  | _ => exact .inl ⟨rfl, by simp⟩

theorem Writes.events_subset
    (writes : Writes db user id request response next) (durable : request.isRead = false) :
    db.deliveryEvents ⊆ next.deliveryEvents := by
  rcases Writes.events_eq writes durable with ⟨same, -⟩ | ⟨_, _, _, _, _, grown⟩
  · rw [same]
    exact List.Subset.refl _
  · rw [grown]
    exact List.subset_append_left _ _

private theorem writes_recorded
    (writes : Writes db user id request response next) (durable : request.isRead = false)
    (hash : Digest) (bytes : Bytes) :
    Recorded next.deliveryEvents ⟨user, id, hash, bytes⟩ request response := by
  intro e accepted
  rcases Writes.events_eq writes durable with
    ⟨-, none⟩ | ⟨operation, record, accepts, rfl, rfl, grown⟩
  · exact absurd accepted (none e)
  · obtain rfl := Response.appendAccepted.inj accepted
    refine ⟨rfl, rfl, rfl, _, ?_, accepts_holds accepts⟩
    rw [grown]
    exact List.mem_append_right _ (List.mem_singleton_self _)

private theorem writes_new_event
    (writes : Writes db user id request response next) (durable : request.isRead = false)
    {log : EventRow} (member : log ∈ next.deliveryEvents) (new : log ∉ db.deliveryEvents)
    (holds : Holds log e) : user = e.sender ∧ id = e.id ∧ response = .appendAccepted e := by
  rcases Writes.events_eq writes durable with
    ⟨same, -⟩ | ⟨operation, record, accepts, rfl, rfl, grown⟩
  · exact absurd (same ▸ member) new
  rw [grown] at member
  rcases List.mem_append.mp member with old | last
  · exact absurd old new
  · obtain rfl := List.mem_singleton.mp last
    obtain rfl := holds.unique (accepts_holds accepts)
    exact ⟨rfl, rfl, rfl⟩

theorem Valid.journals {db final : Db} (valid : Valid sha256 db)
    (journals : Journals sha256 db user id request response final) : Valid sha256 final := by
  obtain ⟨wire, bytes, next, sender, room, encoded, kept, writes, rfl⟩ := journals.witness
  have tables := valid.toTables.step writes
  have within := Writes.within valid.toTables writes journals.durable
  have result : Result sha256 next.deliveryEvents ⟨user, id, sha256 wire, bytes⟩ request response :=
    ⟨⟨wire, encoded, rfl⟩, kept,
      decodeMessage_encodeMessage kept ((bounded_response response).mpr within),
      journals.durable, journals.settles, Writes.fits valid.toTables writes journals.durable,
      writes.not_page journals.durable, writes_recorded writes journals.durable _ _⟩
  refine ⟨⟨tables.log, tables.welcomes, tables.rooms, tables.packages⟩, ?_⟩
  rw [writes.requests_eq]
  exact valid.journal.append (Writes.events_subset writes journals.durable)
    (savedRequest_none journals.unused) result
    fun log member new e holds => writes_new_event writes journals.durable member new holds

theorem Valid.deliver (valid : Valid sha256 db) (here : Surroundings) (user : UserId)
    (id : MessageId) (request : Request) :
    Valid sha256 (deliver sha256 here db user id request).2 := by
  have delivers := deliver_delivers sha256 here db user id request
  generalize (Grotto.Relay.Deliver.deliver sha256 here db user id request).1 = answer at delivers
  generalize (Grotto.Relay.Deliver.deliver sha256 here db user id request).2 = final at delivers ⊢
  cases delivers with
  | settled journals => exact valid.journals journals
  | _ => exact valid

theorem Valid.runCalls (valid : Valid sha256 db) (calls : List Call) :
    Valid sha256 (runCalls sha256 db calls) := by
  induction calls generalizing db with
  | nil => exact valid
  | cons c calls ih => exact ih (valid.deliver c.here c.user c.id c.request)

end Grotto.Relay.Invariant
