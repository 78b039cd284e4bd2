/- GID: Grotto/Network/Agreement
   digest: What clients hold of a room is the log of the room, up to a place the log has reached. -/

import Grotto.Client.Inbox
import Grotto.Network.Provenance
import Grotto.Relay.Heads

set_option autoImplicit false

namespace Grotto.Network.Agreement

open Format.Varint (Bytes)
open Protocol.Records Protocol.Wire Protocol.Transcripts Protocol.Sizes
open Format.Postcard (Octets)
open Client.Library Client.Tables Client.Delivery Client.Changes Client.Frames Client.Inbox
open Client.Machine
open Model Ledger Mirror Provenance
open Relay.Storage (Db EventRow)
open Relay.Invariant (Valid)
open Relay.Heads

variable {mls : Mls} {d : Deployment mls} {s : System mls} {past : List (System mls)}
variable {user : UserId} {e : Engine mls}

def readers : List UserId := [sampleUser 1, sampleUser 3]

def appended (id : UInt8) (operation : Append) (scene : Scene Client.Cleartext.mls) :
    Scene Client.Cleartext.mls :=
  scene.then (among readers) readers
    (.execute Relay.Deliver.idle (sampleUser 2) (sampleId id) (.appendRoomOperation operation))

variable {scene : Scene Client.Cleartext.mls}

theorem run_appended {id : UInt8} {operation : Append}
    (run : Run (among readers) scene.1 scene.2) : Run (among readers)
      (appended id operation scene).1 (appended id operation scene).2 :=
  run.then (among_listed _) _

def imported (user other : UInt8) (scene : Scene Client.Cleartext.mls) : Scene Client.Cleartext.mls :=
  let card := (clearEngine (sampleUser other)).ownCard
  scene.turn readers (sampleUser user) (.command (.contactImport card.encode
    (card.fingerprint (clearEngine (sampleUser user)).crypto))) [] []

def bodyOf (message : Client.Cleartext.Message) : Bytes := (toWire Client.Cleartext.mls message).getD []

def welcomed (user : UInt8) (epoch : UInt64) (others : List UInt8) : WelcomeAttachment where
  recipient := sampleUser user
  body := bodyOf ⟨.welcome, epoch, 0, [], soleRoom.bytes.toList,
    (others ++ [user]).map fun n => (clearEngine (sampleUser n)).client⟩
  signature := Octets.replicate 64 0

/-- User 2 founds a room, invites users 1 and 3 and writes. -/
def published : Scene Client.Cleartext.mls :=
  (Scene.start _).then (among readers) readers
      (.execute Relay.Deliver.idle (sampleUser 2) (sampleId 51) (.createRoom "b"))
    |> appended 52 ⟨soleRoom, 0, 0, .commit, [1], some (welcomed 1 1 [2])⟩
    |> appended 54 ⟨soleRoom, 1, 1, .commit, bodyOf ⟨.commit, 1, 0,
      eventAuthenticatedData soleRoom (sampleId 54) 1, [], [(clearEngine (sampleUser 3)).client]⟩,
      some (welcomed 3 2 [2, 1])⟩
    |> appended 53 ⟨soleRoom, 2, 2, .application, bodyOf ⟨.application, 2, 0,
      eventAuthenticatedData soleRoom (sampleId 53) 2, [7], []⟩, none⟩

theorem run_published : Run (among readers) published.1 published.2 := by
  have started : Run (among readers) (Scene.start _).1 (Scene.start _).2 := .start
  exact run_appended (run_appended (run_appended (started.then (among_listed _) _)))

/-- A user starts, gets to know two others and drives. -/
def readBy (user first second : UInt8) (ids : List UInt8) (scene : Scene Client.Cleartext.mls) :
    Scene Client.Cleartext.mls :=
  scene.turn readers (sampleUser user) (.start calm) [] [] |> imported user first |> imported user second
    |>.turn readers (sampleUser user) (.drive 9) (ids.map sampleId) []

theorem run_readBy {user first second : UInt8} {ids : List UInt8}
    (run : Run (among readers) scene.1 scene.2) : Run (among readers)
      (readBy user first second ids scene).1 (readBy user first second ids scene).2 :=
  (((run.turn _ _ _ _).turn _ _ _ _).turn _ _ _ _).turn _ _ _ _

def greeted : Scene Client.Cleartext.mls :=
  published |> readBy 1 2 3 [1, 2, 3, 4, 5, 6] |> readBy 3 2 1 [11, 12, 13, 14, 15, 16]

theorem run_greeted : Run (among readers) greeted.1 greeted.2 := run_readBy (run_readBy run_published)

structure Copies (row : InboxRow) (log : EventRow) : Prop where
  room : log.room = row.room
  sequence : log.sequence = row.sequence
  event : log.eventId = row.eventId
  record : log.record = row.record

theorem copies_of_run (run : Run d s past) (runs : d.engine user = some e) {row : InboxRow}
    (listed : row ∈ (s.clients user).store.deliveryInbox) :
    s.relay.isSubscribed row.room user = true ∧ ∃ log ∈ s.relay.deliveryEvents, Copies row log := by
  obtain ⟨event, logged, encodes, shape⟩ := (mirrors_run run runs).inbox row listed
  obtain ⟨log, present, holds⟩ := logged.row
  rw [shape]
  refine ⟨logged.subscribed, log, present, holds.room.symm, holds.parent.symm, holds.id.symm, ?_⟩
  exact Except.ok.inj (holds.encoded.symm.trans encodes)

/-- Clients agree with the log and with each other on every place of every room. -/
theorem inboxes_agree (run : Run d s past) (runs : d.engine user = some e) {row : InboxRow}
    (listed : row ∈ (s.clients user).store.deliveryInbox) :
    s.relay.isSubscribed row.room user = true ∧ (∃ log ∈ s.relay.deliveryEvents, Copies row log) ∧
    ∀ other f, d.engine other = some f → ∀ copy ∈ (s.clients other).store.deliveryInbox,
      copy.room = row.room → (copy.sequence = row.sequence ↔ copy.eventId = row.eventId) ∧
        (copy.sequence = row.sequence → copy.record = row.record) := by
  have log := (joint_run run).valid.log
  obtain ⟨subscribed, mine, present, copies⟩ := copies_of_run run runs listed
  refine ⟨subscribed, ⟨mine, present, copies⟩, fun other f runs' copy listed' room => ?_⟩
  obtain ⟨-, theirs, present', copies'⟩ := copies_of_run run runs' listed'
  have same : copy.sequence = row.sequence → theirs = mine := fun place =>
    log.row_unique present' present (by rw [copies'.room, copies.room, room])
      (by rw [copies'.sequence, copies.sequence, place])
  refine ⟨⟨fun place => ?_, fun named => ?_⟩, fun place => ?_⟩
  · rw [← copies'.event, ← copies.event, same place]
  · have equal := log.row_of_id present' present (by rw [copies'.event, copies.event, named])
    rw [← copies'.sequence, ← copies.sequence, equal]
  · rw [← copies'.record, ← copies.record, same place]

theorem inboxes_agree_greeted :
    ∃ row ∈ (greeted.1.clients (sampleUser 1)).store.deliveryInbox,
      (∃ log ∈ greeted.1.relay.deliveryEvents, Copies row log) ∧
      ∃ copy ∈ (greeted.1.clients (sampleUser 3)).store.deliveryInbox,
        copy.eventId = row.eventId ∧ copy.record = row.record := by
  have both : ∃ row ∈ (greeted.1.clients (sampleUser 1)).store.deliveryInbox,
      ∃ copy ∈ (greeted.1.clients (sampleUser 3)).store.deliveryInbox,
        copy.room = row.room ∧ copy.sequence = row.sequence := by decide +kernel
  obtain ⟨row, listed, copy, listed', room, place⟩ := both
  obtain ⟨-, logged, others⟩ := inboxes_agree run_greeted rfl listed
  obtain ⟨named, record⟩ := others (sampleUser 3) _ rfl copy listed' room
  exact ⟨row, listed, logged, copy, listed', named.mp place, record place⟩

theorem reached_of_logged {sha256 : Hash} {db : Db} {event : Event}
    (valid : Valid sha256 db) (logged : Logged db user event) :
    event.operation.parent.toNat + 1 ≤ db.head event.operation.room := by
  obtain ⟨log, present, holds⟩ := logged.row
  rw [valid.log.head_eq, holds.room, holds.parent]
  exact ((valid.log.mem_iff log.room log.sequence).mp ⟨log, present, rfl, rfl⟩).2

theorem reached_of_invited {sha256 : Hash} {db : Db} {welcome : WelcomeDelivery}
    (valid : Valid sha256 db) (invited : Invited db user welcome) :
    welcome.sequence.toNat ≤ db.head welcome.room := by
  obtain ⟨row, present, -, -, stored, holds, same⟩ := invited
  obtain ⟨known, holds', log, logged, event, place, invites⟩ := valid.welcomes.records row present
  have equal : known = stored := Except.ok.inj (holds'.decoded.symm.trans holds.decoded)
  rw [same, ← equal]
  change known.sequence.toNat ≤ db.head known.room
  rw [valid.log.head_eq, ← invites.room, ← invites.sequence, place.room, place.parent]
  exact ((valid.log.mem_iff log.room log.sequence).mp ⟨log, logged, rfl, rfl⟩).2

/-- No client is ahead of the log. -/
theorem cursors_within_log (run : Run d s past) (runs : d.engine user = some e) {room : RoomId}
    {n : Nat} (cursor : (s.clients user).store.deliveryCursors room = some n) :
    n ≤ s.relay.head room := by
  induction run generalizing n with
  | start => cases cursor
  | @step s t past action before taken apart ih =>
    have joint := joint_run before
    have valid := joint.valid
    have mirrors := mirrors_run before runs
    cases turn_of_step before runs taken apart with
    | elsewhere store grown =>
      rw [store] at cursor
      have after := (joint_run (.step before taken apart)).valid
      exact (ih cursor).trans (head_mono grown valid after room)
    | own _ commits relay =>
      rw [relay]
      have ordered := (joint.accounts user e runs).sound.ordered
      cases (turns_of_commits ordered commits).2 room with
      | stays same => exact ih (same.symm.trans cursor)
      | created _ _ _ _ _ zero =>
        cases zero.symm.trans cursor
        exact Nat.zero_le _
      | welcomed row welcome _ pending read place boundary =>
        cases boundary.symm.trans cursor
        obtain ⟨found, invited, encodes, -⟩ := mirrors.welcomes row pending
        obtain rfl := eq_of_decodeMessage encodes read
        rw [← place]
        exact reached_of_invited valid invited
      | settled event bytes old _ place encodes _ held _ _ _ advanced =>
        cases advanced.symm.trans cursor
        obtain ⟨found, logged, encodes', -⟩ := mirrors.inbox _ held
        rw [← place, event_eq_of_encode encodes encodes']
        exact reached_of_logged valid logged

theorem cursors_within_log_greeted :
    (greeted.1.clients (sampleUser 1)).store.deliveryCursors soleRoom = some 3 ∧
      3 ≤ greeted.1.relay.head soleRoom := by
  have cursor : (greeted.1.clients (sampleUser 1)).store.deliveryCursors soleRoom = some 3 := by
    decide +kernel
  exact ⟨cursor, cursors_within_log run_greeted rfl cursor⟩

section Histories

variable {store next : Store mls} {row : HistoryRow} {fresh : MessageId → Prop}

/-- How a row of the history got there: it was there, it is a draft under a new identifier, or the event
at the cursor has given it its place. -/
inductive Written (e : Engine mls) (fresh : MessageId → Prop) (store : Store mls) (row : HistoryRow) :
    Prop
  | kept (old : row ∈ store.authenticatedHistory)
  | drafted (new : fresh row.messageId)
      (author : row.author = e.user ∨ ∃ old ∈ store.authenticatedHistory,
        old.messageId = row.messageId ∧ old.author = row.author)
  | placed (event : Event) (ready : AtCursor store event) (named : row.messageId = event.id)
      (place : row.sequence = event.operation.parent.toNat + 1)
      (author : (∃ old ∈ store.authenticatedHistory, old.messageId = row.messageId ∧
          old.room = row.room ∧ old.author = row.author) ∨
        row.room = event.operation.room ∧ row.author = event.sender)

theorem mem_setHistorySequence {id : MessageId} {place : Nat}
    (listed : row ∈ (store.setHistorySequence id place).authenticatedHistory) :
    row ∈ store.authenticatedHistory ∨ (row.messageId = id ∧ row.sequence = place ∧
      ∃ old ∈ store.authenticatedHistory, old.messageId = row.messageId ∧ old.room = row.room ∧
        old.author = row.author) := by
  obtain ⟨old, present, rfl⟩ := List.mem_map.mp listed
  split
  · rename_i named
    exact .inr ⟨named, rfl, old, present, rfl, rfl, rfl⟩
  · exact .inl present

theorem mem_recorded {new : HistoryRow}
    (listed : row ∈ (store.recordPlaintext new).authenticatedHistory) :
    row ∈ store.authenticatedHistory ∨ row = new ∨ (row.messageId = new.messageId ∧
      row.sequence = new.sequence ∧ ∃ old ∈ store.authenticatedHistory,
        old.messageId = row.messageId ∧ old.room = row.room ∧ old.author = row.author) := by
  unfold Store.recordPlaintext at listed
  split at listed
  · exact (mem_setHistorySequence listed).imp_right .inr
  · rcases List.mem_append.mp listed with old | single
    · exact .inl old
    · exact .inr (.inl (List.mem_singleton.mp single))

theorem written_of_settles {event : Event} (ready : AtCursor store event)
    (settles : Settles e store event next) (listed : row ∈ next.authenticatedHistory) :
    Written e fresh store row := by
  cases settles with
  | @apply u _ applies finishes =>
    have listed : row ∈ u.authenticatedHistory := by
      rw [journals_rest finishes.2] at listed
      exact listed
    cases applies with
    | @own v mine attempt merges =>
      have merged : v.authenticatedHistory = store.authenticatedHistory := by
        split at merges
        · rw [regroups_merges merges]
        · rw [merges]
      rcases mem_setHistorySequence listed with old | ⟨named, place, old⟩
      · exact .kept (merged ▸ old)
      · exact .placed event ready named place (.inl (merged ▸ old))
    | message other processes =>
      rw [regroups_processes processes] at listed
      rcases mem_recorded listed with old | rfl | ⟨named, place, old⟩
      · exact .kept old
      · exact .placed event ready rfl rfl (.inr ⟨rfl, rfl⟩)
      · exact .placed event ready named place (.inl old)
    | commit other processes =>
      rw [regroups_processes processes] at listed
      exact .kept listed
  | block _ => exact .kept listed
  | reject _ _ finishes =>
    rw [journals_rest finishes.2] at listed
    exact .kept listed

theorem written_of_completes {id : MessageId} {request : Request} {response : Response}
    (completes : Completes e store id request response next)
    (listed : row ∈ next.authenticatedHistory) : Written e fresh store row := by
  cases completes with
  | create founds named =>
    rw [creates_rest founds named] at listed
    exact .kept listed
  | close _ => exact .kept listed
  | reserve _ _ _ _ => exact .kept listed
  | accept stores =>
    obtain ⟨_, -, -, -, rfl⟩ := stores_cases stores
    exact .kept listed
  | conflict _ forgets =>
    rw [regroups_forgets forgets] at listed
    exact .kept (List.mem_filter.mp listed).1
  | refuse _ forgets =>
    rw [regroups_forgets forgets] at listed
    exact .kept listed

theorem written_of_commits {asked : UserCommand → Prop}
    {known : MessageId × Request → Response → Prop} (commits : Commits e asked known fresh store next)
    (listed : row ∈ next.authenticatedHistory) : Written e fresh store row := by
  cases commits with
  | contact _ _ =>
    refine .kept ?_
    unfold Store.insertContact at listed
    split at listed <;> exact listed
  | command _ _ _ journals =>
    rw [journals_rest journals] at listed
    exact .kept listed
  | intent _ _ inserted =>
    obtain ⟨-, rfl⟩ := insertIntent_rest inserted
    exact .kept listed
  | name named =>
    rw [upsertRoom_rest named] at listed
    exact .kept listed
  | complete _ _ completes => exact written_of_completes completes listed
  | receive _ _ _ _ _ _ stores =>
    obtain ⟨_, -, -, -, rfl⟩ := stores_cases stores
    exact .kept listed
  | attempt _ _ new _ _ builds journals =>
    rw [journals_rest journals] at listed
    cases builds with
    | reservation _ _ => exact .kept listed
    | addition _ _ adds =>
      rw [regroups_adds adds] at listed
      exact .kept listed
    | message _ _ _ _ encrypts =>
      obtain ⟨_, _, _, _, -, -, -, -, -, rfl⟩ := encrypts
      rcases mem_recorded listed with old | rfl | ⟨named, -, old, present, same, -, author⟩
      · exact .kept old
      · exact .drafted new (.inl rfl)
      · exact .drafted (named ▸ new) (.inr ⟨old, present, same, author⟩)
  | welcomes _ _ _ => exact .kept listed
  | suspend _ _ => exact .kept listed
  | join _ _ joins =>
    obtain ⟨_, _, -, -, placed, journals⟩ := joins_rest joins
    rw [journals_rest journals, placed] at listed
    exact .kept listed
  | settle ready settles => exact written_of_settles ready settles listed

structure Tells (row : HistoryRow) (log : EventRow) : Prop where
  event : log.eventId = row.messageId
  author : log.sender = row.author
  room : log.room = row.room
  sequence : log.sequence = row.sequence

theorem tells_of_run (run : Run d s past) (runs : d.engine user = some e)
    (listed : row ∈ (s.clients user).store.authenticatedHistory) (other : row.author ≠ user) :
    ∃ log ∈ s.relay.deliveryEvents, Tells row log := by
  induction run generalizing row with
  | start => cases listed
  | @step s t past action before taken apart ih =>
    have joint := joint_run before
    cases turn_of_step before runs taken apart with
    | elsewhere store grown =>
      rw [store] at listed
      obtain ⟨log, present, tells⟩ := ih listed other
      exact ⟨log, grown.events.subset present, tells⟩
    | own pool commits relay =>
      rw [relay]
      cases written_of_commits commits listed with
      | kept old => exact ih old other
      | drafted new author =>
        -- The log has nothing of another sender under an identifier that this client has drawn.
        rcases author with mine | ⟨old, present, named, author⟩
        · exact absurd (mine.trans (d.named user e runs)) other
        obtain ⟨log, logged, tells⟩ := ih present (author ▸ other)
        have drawn := (pool _ new).drawn
        have sender := joint.owned user _ drawn log logged (tells.event.trans named)
        rw [tells.author, author] at sender
        exact absurd sender other
      | placed event ready named place author =>
        obtain ⟨bytes, state, encodes, held⟩ := ready.held
        obtain ⟨found, logged, encodes', -⟩ := (mirrors_run before runs).inbox _ held
        obtain rfl := event_eq_of_encode encodes encodes'
        obtain ⟨log, present, holds⟩ := logged.row
        have event : log.eventId = row.messageId := holds.id.symm.trans named.symm
        have sequence : log.sequence = row.sequence := holds.parent.symm.trans place.symm
        rcases author with ⟨old, held, same, room, author⟩ | ⟨room, author⟩
        · obtain ⟨log', present', tells⟩ := ih held (author ▸ other)
          obtain rfl := joint.valid.log.row_of_id present' present
            (tells.event.trans (same.trans event.symm))
          exact ⟨log', present, event, tells.author.trans author, tells.room.trans room, sequence⟩
        · exact ⟨log, present, event, holds.sender.symm.trans author.symm,
            holds.room.symm.trans room.symm, sequence⟩

/-- What clients show of others' messages is in the log, under the author, the room and the place they
show, and any two of them show the same message at a place. -/
theorem histories_agree (run : Run d s past) (runs : d.engine user = some e)
    (listed : row ∈ (s.clients user).store.authenticatedHistory) (other : row.author ≠ user) :
    (∃ log ∈ s.relay.deliveryEvents, Tells row log) ∧
    ∀ reader f, d.engine reader = some f → ∀ shown ∈ (s.clients reader).store.authenticatedHistory,
      shown.author ≠ reader → shown.room = row.room → shown.sequence = row.sequence →
        shown.messageId = row.messageId ∧ shown.author = row.author := by
  have log := (joint_run run).valid.log
  obtain ⟨mine, present, tells⟩ := tells_of_run run runs listed other
  refine ⟨⟨mine, present, tells⟩, fun reader f runs' shown listed' apart room place => ?_⟩
  obtain ⟨theirs, present', tells'⟩ := tells_of_run run runs' listed' apart
  obtain rfl := log.row_unique present' present (by rw [tells'.room, tells.room, room])
    (by rw [tells'.sequence, tells.sequence, place])
  exact ⟨tells'.event.symm.trans tells.event, tells'.author.symm.trans tells.author⟩

theorem histories_agree_greeted :
    (⟨sampleId 53, soleRoom, 3, sampleUser 2, [7]⟩ : HistoryRow) ∈
      (greeted.1.clients (sampleUser 1)).store.authenticatedHistory ∧
    ∃ log ∈ greeted.1.relay.deliveryEvents, Tells ⟨sampleId 53, soleRoom, 3, sampleUser 2, [7]⟩ log := by
  have listed : (⟨sampleId 53, soleRoom, 3, sampleUser 2, [7]⟩ : HistoryRow) ∈
      (greeted.1.clients (sampleUser 1)).store.authenticatedHistory := by decide +kernel
  exact ⟨listed, (histories_agree run_greeted rfl listed (by decide)).1⟩

end Histories

end Grotto.Network.Agreement
