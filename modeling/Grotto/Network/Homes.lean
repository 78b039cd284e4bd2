/- GID: Grotto/Network/Homes
   digest: A room is without events and without a group until its creator has handled the answer. -/

import Grotto.Client.Holdings
import Grotto.Network.Provenance

set_option autoImplicit false

namespace Grotto.Network.Homes

open Protocol.Records Protocol.Wire Protocol.Transcripts
open Client.Library Client.Tables Client.Delivery Client.Changes
open Client.Frames Client.Machine
open Client.Holdings
open Model Ledger Mirror Provenance
open Relay.Storage (Db EventRow)
open Relay.Deliver (deliver)
open Relay.Invariant (Valid)
open Relay.Idempotence (Saved)
open Relay.Log (Extends)
open Relay.Membership (Members Creates)

variable {db : Db} {room : RoomId} {id : MessageId} {request : Request} {sha256 : Hash}

section Relay

structure Rooted (db : Db) : Prop where
  made : ∀ row ∈ db.deliveryRequests, ∀ room,
    decodeMessage Response row.response = .ok (.roomCreated room) → Creates db room row.userId
  once : ∀ row ∈ db.deliveryRequests, ∀ other ∈ db.deliveryRequests, ∀ room,
    decodeMessage Response row.response = .ok (.roomCreated room) →
    decodeMessage Response other.response = .ok (.roomCreated room) → row = other

theorem creates_mono {db next : Db} (grown : Extends db next) {user : UserId}
    (creates : Creates db room user) : Creates next room user := by
  obtain ⟨row, listed, rest⟩ := creates
  exact ⟨row, grown.rooms.subset listed, rest⟩

theorem creates_of_writes {db next : Db} {user : UserId} (durable : request.isRead = false)
    (writes : Relay.Steps.Writes db user id request (.roomCreated room) next) :
    (∀ row ∈ db.rooms, row.roomId ≠ room) ∧ Creates next room user := by
  cases writes with
  | read read =>
    rw [durable] at read
    cases read
  | @room name normalized _ normal fresh =>
    refine ⟨fresh, ⟨room, normalized, user⟩, ?_, rfl, rfl⟩
    rw [Relay.Storage.subscribe_rooms]
    exact List.mem_append_right _ (List.mem_singleton_self _)

theorem Rooted.deliver (rooted : Rooted db) (sha256 : Hash) (here : Relay.Storage.Surroundings)
    (user : UserId) (id : MessageId) (request : Request) :
    Rooted (deliver sha256 here db user id request).2 := by
  have delivers := Relay.Steps.deliver_delivers sha256 here db user id request
  generalize (Relay.Deliver.deliver sha256 here db user id request).1 = answer at delivers
  generalize (Relay.Deliver.deliver sha256 here db user id request).2 = final at delivers ⊢
  cases delivers with
  | @settled response _ journals =>
    have grown := Relay.Log.extends_of_journals journals
    obtain ⟨wire, bytes, next, sender, place, encoded, kept, writes, rfl⟩ := journals.witness
    have same := Relay.Steps.Writes.requests_eq writes
    -- The new row answers with a room only if this call made it.
    have fresh : ∀ room, decodeMessage Response bytes = .ok (.roomCreated room) →
        (∀ row ∈ db.rooms, row.roomId ≠ room) ∧ Creates next room user := by
      intro room decoded
      obtain rfl := eq_of_decodeMessage kept decoded
      exact creates_of_writes journals.durable writes
    have apart : ∀ row ∈ db.deliveryRequests, ∀ room,
        decodeMessage Response row.response = .ok (.roomCreated room) →
        decodeMessage Response bytes ≠ .ok (.roomCreated room) := by
      intro row listed room old new
      obtain ⟨found, present, named, -⟩ := rooted.made row listed room old
      exact (fresh room new).1 found present named
    refine ⟨fun row listed room decoded => ?_, fun row listed other present room first second => ?_⟩
    · rw [same] at listed
      rcases List.mem_append.mp listed with old | new
      · exact creates_mono grown (rooted.made row old room decoded)
      · obtain rfl := List.mem_singleton.mp new
        exact (fresh room decoded).2
    · rw [same] at listed present
      rcases List.mem_append.mp listed with old | new
      · rcases List.mem_append.mp present with old' | new
        · exact rooted.once row old other old' room first second
        · obtain rfl := List.mem_singleton.mp new
          exact absurd second (apart row old room first)
      · obtain rfl := List.mem_singleton.mp new
        rcases List.mem_append.mp present with old | new
        · exact absurd first (apart other old room second)
        · exact (List.mem_singleton.mp new).symm
  | _ => exact rooted

theorem room_of_event (valid : Valid sha256 db) (members : Members db) {row : EventRow}
    (logged : row ∈ db.deliveryEvents) : ∃ found ∈ db.rooms, found.roomId = row.room :=
  valid.rooms.known _ (members.senders row logged)

theorem creator_of_empty (members : Members db) (valid : Valid sha256 db) {user caller : UserId}
    (creates : Creates db room user) (empty : ∀ row ∈ db.deliveryEvents, row.room ≠ room)
    (subscribed : db.isSubscribed room caller = true) : caller = user := by
  rcases (members.subscribed room caller).mp (Relay.Invariant.isSubscribed_iff.mp subscribed) with
    ⟨row, listed, named, rfl⟩ | ⟨row, logged, notice, carried, place, -⟩
  · obtain ⟨other, present, same, rfl⟩ := creates
    rw [List.inj_on_of_nodup_map valid.rooms.ids listed present (named.trans same.symm)]
  · obtain ⟨event, holds⟩ := valid.log.records row logged
    rw [Relay.Membership.noticeOf_holds holds] at carried
    obtain ⟨welcome, -, rfl⟩ := Option.map_eq_some_iff.mp carried
    exact absurd place (empty row logged)

end Relay

section Clients

variable {mls : Mls} {d : Deployment mls} {s t : System mls} {past : List (System mls)}
variable {user : UserId} {e : Engine mls}

theorem rooted_run (run : Run d s past) : Rooted s.relay := by
  induction run with
  | start => exact ⟨nofun, nofun⟩
  | step before taken _ ih =>
    cases step_steps taken with
    | client | post => exact ih
    | fail | execute => exact ih.deliver _ _ _ _ _

/-- Where the groups of a client are at home: in rooms of the relay, and none is in a room whose
creation the client has still to take in. -/
structure Homed (d : Deployment mls) (s : System mls) (user : UserId) : Prop where
  housed : Housed (s.clients user).store
  known : ∀ room, ((s.clients user).store.mlsGroups room).isSome →
    ∃ row ∈ s.relay.rooms, row.roomId = room
  spoken : ∀ id operation, (user, id, .appendRoomOperation operation) ∈ s.sent →
    ((s.clients user).store.mlsGroups operation.room).isSome
  unfounded : ∀ id name request room, Carries (s.clients user).store id (.createRoom name) →
    Saved d.sha256 s.relay user id request (.roomCreated room) →
    (s.clients user).store.mlsGroups room = none ∧ ∀ row ∈ s.relay.deliveryEvents, row.room ≠ room

theorem event_of_welcome (joint : Joint d s) (mirrors : Mirrors d s user) {row : WelcomeInboxRow}
    {welcome : WelcomeDelivery} (pending : row ∈ (s.clients user).store.welcomeInbox)
    (read : decodeMessage WelcomeDelivery row.record = .ok welcome) :
    ∃ log ∈ s.relay.deliveryEvents, log.room = welcome.room := by
  obtain ⟨found, ⟨stored, listed, -, -, delivered, holds, same⟩, encodes, -⟩ :=
    mirrors.welcomes row pending
  obtain rfl := eq_of_decodeMessage encodes read
  obtain ⟨kept, holds', log, logged, event, held, invites⟩ := joint.valid.welcomes.records stored listed
  have equal : delivered = kept := Except.ok.inj (holds.decoded.symm.trans holds'.decoded)
  refine ⟨log, logged, ?_⟩
  rw [← held.room, invites.room, ← equal, same]

theorem creates_of_saved (rooted : Rooted s.relay)
    (saved : Saved d.sha256 s.relay user id request (.roomCreated room)) :
    Creates s.relay room user := by
  obtain ⟨row, wire, found, -, -, decoded⟩ := saved
  obtain ⟨listed, rfl, -⟩ := Relay.Invariant.savedRequest_some found
  exact rooted.made row listed room decoded

theorem Rooted.id_eq (rooted : Rooted db) {id other : MessageId} {request request' : Request}
    (first : Saved sha256 db user id request (.roomCreated room))
    (second : Saved sha256 db user other request' (.roomCreated room)) : id = other := by
  obtain ⟨row, _, found, -, -, decoded⟩ := first
  obtain ⟨row', _, found', -, -, decoded'⟩ := second
  obtain ⟨listed, -, rfl⟩ := Relay.Invariant.savedRequest_some found
  obtain ⟨listed', -, rfl⟩ := Relay.Invariant.savedRequest_some found'
  rw [rooted.once row listed row' listed' room decoded decoded']

/-- A durable change of the client. -/
theorem Homed.commits (homes : Homed d s user) (joint : Joint d s) (mirrors : Mirrors d s user)
    (rooted : Rooted s.relay) (runs : d.engine user = some e) {fresh : MessageId → Prop}
    (pool : ∀ id, fresh id → Unspent s past user id)
    (commits : Commits e (s.clients user).asked (s.clients user).known fresh (s.clients user).store
      (t.clients user).store) (relay : t.relay = s.relay) (sent : t.sent = s.sent) : Homed d t user := by
  have accounts := joint.accounts user e runs
  have linked := accounts.sound.linked
  have gains := gains_of_commits commits
  -- The room of an answer to a creation that is at hand.
  have created : ∀ {id name room}, (s.clients user).known (id, .createRoom name) (.roomCreated room) →
      Saved d.sha256 s.relay user id (.createRoom name) (.roomCreated room) := fun answer =>
    (booked_of_told (accounts.told _ _ (.inr answer)) rfl rfl nofun).saved
  refine ⟨homes.housed.commits linked commits, fun room held => ?_, fun id operation posted => ?_,
    fun id name request room carries saved => ?_⟩
  · rw [relay]
    cases gains with
    | none same => exact homes.known room (by rw [← same]; exact held)
    | created _ answer _ grown =>
      rw [grown, Bool.or_eq_true, decide_eq_true_iff] at held
      rcases held with rfl | old
      · obtain ⟨row, listed, named, -⟩ := creates_of_saved rooted (created answer)
        exact ⟨row, listed, named⟩
      · exact homes.known room old
    | joined pending read grown =>
      rw [grown, Bool.or_eq_true, decide_eq_true_iff] at held
      rcases held with rfl | old
      · obtain ⟨log, logged, place⟩ := event_of_welcome joint mirrors pending read
        rw [← place]
        exact room_of_event joint.valid joint.members logged
      · exact homes.known room old
  · rw [sent] at posted
    exact gains.mono (homes.spoken id operation posted)
  · rw [relay] at saved ⊢
    have moves : Moves e fresh (s.clients user) (t.clients user) := .inr commits
    rcases carries_made moves carries with old | new | receipt
    · obtain ⟨missing, empty⟩ := homes.unfounded id name request room old saved
      refine ⟨?_, empty⟩
      have absent : ((s.clients user).store.mlsGroups room).isSome = false := by rw [missing]; rfl
      refine Option.not_isSome_iff_eq_none.mp fun held => ?_
      cases gains with
      | none same =>
        rw [same, absent] at held
        cases held
      | @created other _ place entry answer outbox grown =>
        rw [grown, absent, Bool.or_false, decide_eq_true_iff] at held
        subst held
        obtain rfl := rooted.id_eq saved (created answer)
        exact (carries_removeOutbox.mp ((Carries.congr outbox).mp carries)).1 rfl
      | joined pending read grown =>
        rw [grown, absent, Bool.or_false, decide_eq_true_iff] at held
        obtain ⟨log, logged, place⟩ := event_of_welcome joint mirrors pending read
        exact empty log logged (place.trans held.symm)
    · -- A creation that was just ordered has no answer yet.
      obtain ⟨row, wire, found, -⟩ := saved
      obtain ⟨other, response, posted, booked⟩ := accounts.journal id row found
      have read := (pool id new).unsent other posted
      rw [booked.durable] at read
      cases read
    · cases receipt

/-- A call at the relay. -/
theorem Homed.execute (homes : Homed d s user) (joint : Joint d s) (rooted : Rooted s.relay)
    (runs : d.engine user = some e) {here : Relay.Storage.Surroundings} {caller : UserId}
    {response : Response} (may : s.mayExecute d caller id request = true)
    (answer : (deliver d.sha256 here s.relay caller id request).1 = .ok response)
    (clients : t.clients user = s.clients user) (sent : t.sent = s.sent)
    (relay : t.relay = (deliver d.sha256 here s.relay caller id request).2) : Homed d t user := by
  have grown := Relay.Log.extends_deliver d.sha256 here s.relay caller id request
  rw [← relay] at grown
  refine ⟨by rw [clients]; exact homes.housed, fun room held => ?_, fun named operation posted => ?_,
    fun named name asks room carries saved => ?_⟩
  · rw [clients] at held
    obtain ⟨row, listed, same⟩ := homes.known room held
    exact ⟨row, grown.rooms.subset listed, same⟩
  · rw [sent] at posted
    rw [clients]
    exact homes.spoken named operation posted
  rw [clients] at carries ⊢
  obtain ⟨row, wire, found, encoded, hash, decoded⟩ := saved
  have delivers := Relay.Steps.deliver_delivers d.sha256 here s.relay caller id request
  rw [← relay] at delivers
  rcases savedRequest_of_delivers delivers found with old | ⟨rfl, rfl, given, settled, journals⟩
  · -- The room was there: nobody but the client can speak in it, and it has not yet.
    have before : Saved d.sha256 s.relay user named asks (.roomCreated room) :=
      ⟨row, wire, old, encoded, hash, decoded⟩
    obtain ⟨missing, empty⟩ := homes.unfounded named name asks room carries before
    refine ⟨missing, fun log logged place => ?_⟩
    by_cases earlier : log ∈ s.relay.deliveryEvents
    · exact empty log earlier place
    rw [relay] at logged
    obtain ⟨sender, -, subscribed, event, accepted, holds⟩ := Relay.Membership.new_event logged earlier
    rw [place, sender] at subscribed
    obtain rfl := creator_of_empty joint.members joint.valid (creates_of_saved rooted before) empty
      subscribed
    have booked := booked_of_event answer logged earlier joint.valid
    obtain rfl := Except.ok.inj (answer.symm.trans accepted)
    have posted : (caller, id, request) ∈ s.sent := by
      unfold System.mayExecute at may
      rw [if_pos (by rw [runs]; rfl)] at may
      exact of_decide_eq_true may
    have fits := booked.fits
    generalize same : Response.appendAccepted event = given at fits
    cases fits with
    | @accepted operation =>
      cases same
      have held := homes.spoken id operation posted
      rw [(holds.room.trans place : operation.room = room), missing] at held
      cases held
    | _ => cases same
  · -- The call has just made the room.
    have booked := booked_of_journals joint.valid (Prod.ext settled relay.symm) journals
    have same : given = .roomCreated room :=
      saved_unique booked.saved ⟨row, wire, found, encoded, hash, decoded⟩
    subst same
    obtain ⟨_, _, next, _, _, -, -, writes, -⟩ := journals.witness
    have fresh := (creates_of_writes journals.durable writes).1
    refine ⟨Option.not_isSome_iff_eq_none.mp fun held => ?_, fun log logged place => ?_⟩
    · obtain ⟨found, listed, same⟩ := homes.known room held
      exact fresh found listed same
    by_cases earlier : log ∈ s.relay.deliveryEvents
    · obtain ⟨found, listed, same⟩ := room_of_event joint.valid joint.members earlier
      exact fresh found listed (same.trans place)
    · rw [relay] at logged
      obtain ⟨-, -, -, event, accepted, -⟩ := Relay.Membership.new_event logged earlier
      rw [settled] at accepted
      cases accepted

theorem homed_run (run : Run d s past) (runs : d.engine user = some e) : Homed d s user := by
  induction run with
  | start =>
    refine ⟨nofun, nofun, nofun, ?_⟩
    rintro id name request room ⟨row, present, -⟩
    cases present
  | @step s t past action before taken apart ih =>
    have joint := joint_run before
    have rooted := rooted_run before
    have elsewhere : ∀ {t : System mls}, (t.clients user).store = (s.clients user).store →
        t.relay = s.relay → t.sent = s.sent → Homed d t user := by
      intro t store relay sent
      refine ⟨?_, ?_, ?_, ?_⟩
      · rw [store]
        exact ih.housed
      · rw [store, relay]
        exact ih.known
      · rw [store, sent]
        exact ih.spoken
      · rw [store, relay]
        exact ih.unfounded
    have turn := turn_of_step before runs taken apart
    cases step_steps taken with
    | client _ _ _ _ =>
      cases turn with
      | elsewhere store _ => exact elsewhere store rfl rfl
      | own pool commits relay =>
        exact ih.commits joint (mirrors_run before runs) rooted runs pool commits relay rfl
    | @post mover engine query rest runs' asking =>
      refine ⟨ih.housed, ih.known, fun id operation posted => ?_, ih.unfounded⟩
      rcases List.mem_cons.mp posted with same | old
      · cases same
        obtain ⟨fresh, governed, -⟩ := (joint.accounts user e runs).governed
        have linked := governed.sound.linked
        rcases governed.sends asking with entry | read
        · obtain ⟨row, planned, -, place⟩ := linked.planned id operation (linked.carries_of_entry entry)
          rw [← place]
          exact ih.housed row planned
        · cases read
      · exact ih.spoken id operation old
    | fail may failed => exact elsewhere rfl (deliver_failed failed) rfl
    | execute may answer => exact ih.execute joint rooted runs may answer rfl rfl rfl

end Clients

end Grotto.Network.Homes
