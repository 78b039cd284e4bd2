/- GID: Grotto/Client/History
   digest: The rows of the authenticated history, their authors and the events behind them. -/

import Grotto.Client.Inbox

set_option autoImplicit false

namespace Grotto.Client.History

open Base.Keyed
open Format.Varint (Bytes)
open Format.Postcard (Octets)
open Protocol.Records Protocol.Wire Protocol.Sizes
open Protocol.Transcripts
open Library Tables Groups Effects
open Delivery Changes Frames
open Arrivals Machine Inbox

variable {mls : Mls} {s t : Store mls}

section Statements

private def moveTo (id : MessageId) (sequence : Nat) (row : HistoryRow) : HistoryRow :=
  if row.messageId = id then { row with sequence := sequence } else row

private theorem moveTo_fields (id : MessageId) (sequence : Nat) (row : HistoryRow) :
    (moveTo id sequence row).messageId = row.messageId ∧
      (moveTo id sequence row).room = row.room ∧ (moveTo id sequence row).author = row.author := by
  unfold moveTo
  split
  · exact ⟨rfl, rfl, rfl⟩
  · exact ⟨rfl, rfl, rfl⟩

theorem map_messageId_moveTo (id : MessageId) (sequence : Nat) (rows : List HistoryRow) :
    ((rows.map fun r => if r.messageId = id then { r with sequence := sequence } else r).map
      HistoryRow.messageId) = rows.map HistoryRow.messageId := by
  rw [List.map_map]
  exact List.map_congr_left fun row _ => (moveTo_fields id sequence row).1

theorem recordPlaintext_new {row : HistoryRow}
    (new : ∀ old ∈ s.authenticatedHistory, old.messageId ≠ row.messageId) :
    s.recordPlaintext row = { s with authenticatedHistory := s.authenticatedHistory ++ [row] } := by
  unfold Store.recordPlaintext
  rw [if_neg]
  intro found
  obtain ⟨old, present, same⟩ := List.any_eq_true.mp found
  exact new old present (of_decide_eq_true same)

theorem recordPlaintext_old {row old : HistoryRow} (present : old ∈ s.authenticatedHistory)
    (same : old.messageId = row.messageId) :
    s.recordPlaintext row = s.setHistorySequence row.messageId row.sequence := by
  unfold Store.recordPlaintext Store.setHistorySequence
  rw [if_pos (List.any_eq_true.mpr ⟨old, present, decide_eq_true same⟩)]

theorem mem_recordPlaintext {row found : HistoryRow}
    (listed : found ∈ (s.recordPlaintext row).authenticatedHistory) :
    (∃ old ∈ s.authenticatedHistory, old.messageId = found.messageId ∧ old.room = found.room ∧
      old.author = found.author ∧ (found = old ∨ found.messageId = row.messageId)) ∨
    found = row ∧ ∀ old ∈ s.authenticatedHistory, old.messageId ≠ row.messageId := by
  by_cases known : ∃ old ∈ s.authenticatedHistory, old.messageId = row.messageId
  · obtain ⟨old, present, same⟩ := known
    rw [recordPlaintext_old present same] at listed
    obtain ⟨before, held, rfl⟩ := List.mem_map.mp listed
    obtain ⟨named, room, author⟩ := moveTo_fields row.messageId row.sequence before
    refine .inl ⟨before, held, named.symm, room.symm, author.symm, ?_⟩
    split
    · rename_i this
      exact .inr this
    · exact .inl rfl
  · have new : ∀ old ∈ s.authenticatedHistory, old.messageId ≠ row.messageId :=
      fun old present same => known ⟨old, present, same⟩
    rw [recordPlaintext_new new] at listed
    rcases List.mem_append.mp listed with held | single
    · exact .inl ⟨found, held, rfl, rfl, rfl, .inl rfl⟩
    · exact .inr ⟨List.mem_singleton.mp single, new⟩

theorem nodup_recordPlaintext {row : HistoryRow}
    (distinct : (s.authenticatedHistory.map HistoryRow.messageId).Nodup) :
    ((s.recordPlaintext row).authenticatedHistory.map HistoryRow.messageId).Nodup := by
  by_cases known : ∃ old ∈ s.authenticatedHistory, old.messageId = row.messageId
  · obtain ⟨old, present, same⟩ := known
    rw [recordPlaintext_old present same]
    exact (map_messageId_moveTo row.messageId row.sequence s.authenticatedHistory) ▸ distinct
  · have new : ∀ old ∈ s.authenticatedHistory, old.messageId ≠ row.messageId :=
      fun old present same => known ⟨old, present, same⟩
    rw [recordPlaintext_new new]
    exact nodup_map_append distinct new

end Statements

variable {id : MessageId} {event : Event}

section Edits

variable {e : Engine mls} {asked : UserCommand → Prop}
variable {known : MessageId × Request → Response → Prop} {fresh : MessageId → Prop}

inductive Edits (e : Engine mls) (s t : Store mls) : Prop
  | keeps (same : t.authenticatedHistory = s.authenticatedHistory)
  | drafts (row : HistoryRow) (mine : row.author = e.user)
      (written : t.authenticatedHistory = (s.recordPlaintext row).authenticatedHistory)
  | withdraws (id : MessageId)
      (written : t.authenticatedHistory = (s.deleteHistory id).authenticatedHistory)
  | places (id : MessageId) (sequence : Nat)
      (written : t.authenticatedHistory = (s.setHistorySequence id sequence).authenticatedHistory)
  | records (event : Event) (plaintext : Bytes) (next : Store mls) (other : event.sender ≠ e.user)
      (ready : AtCursor s event)
      (processes : Processes s event (.application plaintext event.sender.bytes.toList) next)
      (applied : ∃ bytes, encodeMessage event = .ok bytes ∧
        rowOf event bytes .applied ∈ t.deliveryInbox)
      (written : t.authenticatedHistory = (s.recordPlaintext ⟨event.id, event.operation.room,
        event.operation.parent.toNat + 1, event.sender, plaintext⟩).authenticatedHistory)

theorem edits_of_completes {request : Request} {response : Response}
    (completes : Completes e s id request response t) : Edits e s t := by
  cases completes with
  | create founds named =>
    rw [creates_rest founds named]
    exact .keeps rfl
  | close _ => exact .keeps rfl
  | reserve _ _ _ _ => exact .keeps rfl
  | accept stores =>
    obtain ⟨_, -, -, -, rfl⟩ := stores_cases stores
    exact .keeps rfl
  | conflict _ forgets =>
    rw [regroups_forgets forgets]
    exact .withdraws id rfl
  | refuse _ forgets =>
    rw [regroups_forgets forgets]
    exact .keeps rfl

theorem edits_of_settles (ready : AtCursor s event) (settles : Settles e s event t) :
    Edits e s t := by
  cases settles with
  | apply applies finishes =>
    obtain ⟨inbox, -, -, history, -⟩ := finishes_tables finishes
    cases applies with
    | @own next mine attempt merges =>
      refine .places event.id (event.operation.parent.toNat + 1) ?_
      rw [history]
      change List.map _ next.authenticatedHistory = List.map _ s.authenticatedHistory
      rw [(merges_own merges).2]
    | @message plaintext next other processes =>
      have same : next.authenticatedHistory = s.authenticatedHistory := by
        rw [regroups_processes processes]
      have rows : t.deliveryInbox = (s.setInboxState event.id .applied).deliveryInbox := by
        have frame : Frame s (next.recordPlaintext ⟨event.id, event.operation.room,
            event.operation.parent.toNat + 1, event.sender, plaintext⟩) :=
          (frame_processes processes).trans frame_recordPlaintext
        rw [inbox]
        change List.map _ _ = List.map _ _
        rw [frame.inbox]
      refine .records event plaintext next other ready processes ?_ ?_
      · obtain ⟨bytes, old, encodes, place⟩ := ready.held
        refine ⟨bytes, encodes, ?_⟩
        rw [rows]
        exact List.mem_map.mpr ⟨_, place, if_pos rfl⟩
      · rw [history]
        exact recordPlaintext_congr same
    | commit other processes =>
      refine .keeps (history.trans ?_)
      rw [regroups_processes processes]
  | block _ => exact .keeps rfl
  | reject _ _ finishes => exact .keeps (finishes_tables finishes).2.2.2.1

theorem edits_of_builds {row : IntentRow} {parent : Nat} {request : Request}
    (builds : Builds e s row id parent request t) : Edits e s t := by
  cases builds with
  | reservation _ _ => exact .keeps rfl
  | addition _ _ adds =>
    rw [regroups_adds adds]
    exact .keeps rfl
  | message _ _ _ _ encrypts =>
    obtain ⟨_, _, _, _, -, -, -, -, -, rfl⟩ := encrypts
    exact .drafts _ rfl (recordPlaintext_congr rfl)

theorem edits_of_commits (commits : Commits e asked known fresh s t) : Edits e s t := by
  have carried : ∀ {u : Store mls}, Edits e s u →
      t.authenticatedHistory = u.authenticatedHistory → t.deliveryInbox = u.deliveryInbox →
      Edits e s t := by
    intro u edits history inbox
    cases edits with
    | keeps same => exact .keeps (history.trans same)
    | drafts row mine written => exact .drafts row mine (history.trans written)
    | withdraws id written => exact .withdraws id (history.trans written)
    | places id sequence written => exact .places id sequence (history.trans written)
    | records event plaintext next other ready processes applied written =>
      exact .records event plaintext next other ready processes (by rw [inbox]; exact applied)
        (history.trans written)
  cases commits with
  | contact _ _ =>
    refine .keeps ?_
    unfold Store.insertContact
    split
    · rfl
    · rfl
  | command _ _ _ journals =>
    rw [journals_rest journals]
    exact .keeps rfl
  | intent _ _ inserted =>
    obtain ⟨-, rfl⟩ := insertIntent_rest inserted
    exact .keeps rfl
  | name named =>
    rw [upsertRoom_rest named]
    exact .keeps rfl
  | complete _ _ completes => exact edits_of_completes completes
  | receive _ _ _ _ _ _ stores =>
    obtain ⟨_, -, -, -, rfl⟩ := stores_cases stores
    exact .keeps rfl
  | attempt _ _ _ _ _ builds journals =>
    refine carried (edits_of_builds builds) ?_ ?_
    · rw [journals_rest journals]
      rfl
    · rw [journals_rest journals]
      rfl
  | welcomes _ _ _ => exact .keeps rfl
  | suspend _ _ => exact .keeps rfl
  | join _ _ joins =>
    obtain ⟨u, w, -, -, placed, journals⟩ := joins_rest joins
    rw [journals_rest journals, placed]
    exact .keeps rfl
  | settle ready settles => exact edits_of_settles ready settles

end Edits

section Authors

variable {e : Engine mls}

structure Attributed (user : UserId) (s : Store mls) : Prop where
  ids : (s.authenticatedHistory.map HistoryRow.messageId).Nodup
  settled : ∀ row ∈ s.authenticatedHistory, row.author ≠ user →
    ∃ found ∈ s.deliveryInbox, found.eventId = row.messageId ∧ found.state.isSettled = true

theorem Attributed.row_eq {user : UserId} (attributed : Attributed user s) {row other : HistoryRow}
    (left : row ∈ s.authenticatedHistory) (right : other ∈ s.authenticatedHistory)
    (same : row.messageId = other.messageId) : row = other :=
  List.inj_on_of_nodup_map attributed.ids left right same

theorem Persists.settled (persists : Persists s t)
    (found : ∃ row ∈ s.deliveryInbox, row.eventId = id ∧ row.state.isSettled = true) :
    ∃ row ∈ t.deliveryInbox, row.eventId = id ∧ row.state.isSettled = true := by
  obtain ⟨row, present, named, done⟩ := found
  obtain ⟨state, kept, same⟩ := persists row present
  exact ⟨_, kept, named, by rw [← same done] at done; exact done⟩

theorem Attributed.edits (attributed : Attributed e.user s) (persists : Persists s t)
    (edits : Edits e s t) : Attributed e.user t := by
  have carried : ∀ {row found : HistoryRow}, row ∈ s.authenticatedHistory →
      row.messageId = found.messageId → row.author = found.author → found.author ≠ e.user →
      ∃ event ∈ t.deliveryInbox, event.eventId = found.messageId ∧ event.state.isSettled = true := by
    intro row found present named author other
    rw [← named]
    exact Persists.settled persists (attributed.settled row present (by rw [author]; exact other))
  cases edits with
  | keeps same =>
    refine ⟨by rw [same]; exact attributed.ids, fun row listed other => ?_⟩
    rw [same] at listed
    exact carried listed rfl rfl other
  | drafts row mine written =>
    refine ⟨by rw [written]; exact nodup_recordPlaintext attributed.ids, fun found listed other => ?_⟩
    rw [written] at listed
    rcases mem_recordPlaintext listed with ⟨old, present, named, -, author, -⟩ | ⟨rfl, -⟩
    · exact carried present named author other
    · exact absurd mine other
  | withdraws id written =>
    refine ⟨?_, fun row listed other => ?_⟩
    · rw [written]
      exact attributed.ids.sublist (List.filter_sublist.map _)
    · rw [written] at listed
      exact carried (List.mem_filter.mp listed).1 rfl rfl other
  | places id sequence written =>
    refine ⟨?_, fun row listed other => ?_⟩
    · rw [written]
      exact (map_messageId_moveTo id sequence s.authenticatedHistory) ▸ attributed.ids
    · rw [written] at listed
      obtain ⟨old, present, rfl⟩ := List.mem_map.mp listed
      obtain ⟨named, -, author⟩ := moveTo_fields id sequence old
      exact carried present named.symm author.symm other
  | records event plaintext next other ready processes applied written =>
    refine ⟨by rw [written]; exact nodup_recordPlaintext attributed.ids, fun found listed apart => ?_⟩
    rw [written] at listed
    rcases mem_recordPlaintext listed with ⟨old, present, named, -, author, -⟩ | ⟨rfl, -⟩
    · exact carried present named author apart
    · obtain ⟨bytes, -, place⟩ := applied
      exact ⟨_, place, rfl, rfl⟩

theorem attributed_empty (user : UserId) : Attributed user (Store.empty mls) :=
  ⟨List.nodup_nil, fun _ present => by cases present⟩

theorem Reachable.attributed {c : Process mls} (reachable : Reachable e c) :
    Attributed e.user c.store := by
  obtain ⟨moves, ran⟩ := reachable
  have kept : Regular e c ∧ Attributed e.user c.store := by
    refine @run_keeps _ e _ c (fun d => Regular e d ∧ Attributed e.user d.store) ?_ moves
      ⟨governed_off _ fun _ _ never => never, attributed_empty e.user⟩ ran
    rintro mid move next ⟨regular, attributed⟩ taken
    obtain ⟨regular', moved⟩ := regular_step regular taken
    refine ⟨regular', ?_⟩
    rcases moved with same | commits
    · rw [same]
      exact attributed
    · exact attributed.edits (turns_step regular taken).1 (edits_of_commits commits)
  exact kept.2

end Authors

variable {next : Store mls} {move : Move mls} {left right : Event}

section Binding

variable {e : Engine mls} {c d : Process mls} {contentType : MlsContentType} {processed : Processed}

/-- A message has one authenticated content, in whatever group it is read. -/
def AuthenticatesContent (mls : Mls) : Prop :=
  ∀ message identities group received after identities' group' received' after',
    mls.processIncomingMessage identities group message = (.ok received, after) →
    mls.processIncomingMessage identities' group' message = (.ok received', after') →
    received = received'

/-- The row is what the library authenticated of the event in the room's group: the sender is the
author's leaf in the roster before the message, and the position is in the authenticated data. -/
def Authentic (s : Store mls) (event : Event) (row : HistoryRow) : Prop :=
  row.author = event.sender ∧ row.room = event.operation.room ∧
  event.operation.contentType = .application ∧
  ∃ incoming group identities after index leaf,
    fromWire mls event.operation.body = some incoming ∧
    s.mlsGroups event.operation.room = some group ∧
    mls.epoch incoming = some event.operation.epoch ∧
    event.operation.epoch = mls.currentEpoch group ∧
    mls.processIncomingMessage identities group incoming = (.ok (.application index
      (eventAuthenticatedData row.room event.id (UInt64.ofNat (row.sequence - 1))) row.plaintext),
      after) ∧
    (mls.roster group).lookup index = some leaf ∧ leaf.identifier = some row.author.bytes.toList

def AppliedBy (c d : Process mls) (event : Event) : Prop :=
  ∃ bytes old, encodeMessage event = .ok bytes ∧ old.isSettled = false ∧
    rowOf event bytes old ∈ c.store.deliveryInbox ∧ rowOf event bytes .applied ∈ d.store.deliveryInbox

theorem boundOutcome_application {sender : UserId} {epoch : UInt64}
    {received : Received} {index : Nat} {aad plaintext author : Bytes}
    (bound : boundOutcome contentType sender epoch received =
      some (index, aad, .application plaintext author)) :
    contentType = .application ∧ received = .application index aad plaintext := by
  unfold boundOutcome at bound
  split at bound
  · split at bound
    · rename_i this
      cases bound
      exact ⟨this, rfl⟩
    · cases bound
  · split at bound
    · cases bound
    · cases bound
  · cases bound

theorem boundOutcome_commit {sender : UserId} {epoch reached : UInt64}
    {received : Received} {index : Nat} {aad : Bytes}
    (bound : boundOutcome contentType sender epoch received = some (index, aad, .commit reached)) :
    contentType = .commit ∧ received = .commit index aad false := by
  unfold boundOutcome at bound
  split at bound
  · split at bound
    · cases bound
    · cases bound
  · split at bound
    · rename_i this
      cases bound
      exact ⟨this.1, by rw [Bool.eq_false_iff.mpr this.2]⟩
    · cases bound
  · cases bound

theorem authentic_of_processes {plaintext : Bytes}
    (processes : Processes s event (.application plaintext event.sender.bytes.toList) next) :
    Authentic s event ⟨event.id, event.operation.room, event.operation.parent.toNat + 1,
      event.sender, plaintext⟩ := by
  obtain ⟨incoming, group, identities, received, after, index, outcome, leaf, read, labelled, held,
    current, -, processed, bound, listed, author, -, result, -⟩ := processes
  cases outcome with
  | commit epoch => cases result
  | application text _ =>
    cases result
    obtain ⟨kind, rfl⟩ := boundOutcome_application bound
    refine ⟨rfl, rfl, kind, incoming, group, identities, after, index, leaf, read, held, labelled,
      current, ?_, listed, author⟩
    simpa using processed

theorem applies_of_settles {bytes : Bytes} (settles : Settles e s event t)
    (after : rowOf event bytes .applied ∈ t.deliveryInbox) :
    ∃ u, Applies e s event u ∧ Finishes e u event .applied t := by
  have marked : ∀ {u : Store mls} {state : ProcessingState},
      t.deliveryInbox = (u.setInboxState event.id state).deliveryInbox → state = .applied := by
    intro u state rows
    rw [rows] at after
    obtain ⟨row, -, same⟩ := List.mem_map.mp after
    by_cases this : row.eventId = event.id
    · rw [if_pos this] at same
      exact congrArg InboxRow.state same
    · rw [if_neg this] at same
      rw [same] at this
      exact absurd rfl this
  cases settles with
  | apply applies finishes => exact ⟨_, applies, finishes⟩
  | block _ => cases marked rfl
  | reject _ _ finishes =>
    cases marked (finishes_tables finishes).1

theorem settles_of_appliedBy (regular : Regular e c) (taken : c.step e move = some d)
    (applied : AppliedBy c d event) :
    AtCursor c.store event ∧ ∃ u, Applies e c.store event u ∧ Finishes e u event .applied d.store := by
  obtain ⟨bytes, old, encodes, unsettled, before, after⟩ := applied
  have apart : ProcessingState.applied ≠ old := by
    rintro rfl
    cases unsettled
  have ordered := regular.sound.ordered
  rcases (regular_step regular taken).2 with same | commits
  · rw [same] at after
    exact absurd (congrArg InboxRow.state (ordered.row_eq_of_id after before rfl)) apart
  · obtain ⟨ready, settles⟩ := settles_of_changed ordered commits encodes before after apart
    exact ⟨ready, applies_of_settles settles after⟩

theorem record_of_appliedBy (regular : Regular e c) (taken : c.step e move = some d)
    (other : event.sender ≠ e.user) (kind : event.operation.contentType = .application)
    (applied : AppliedBy c d event) :
    ∃ row : HistoryRow, Authentic c.store event row ∧ row.messageId = event.id ∧
      AtCursor c.store event ∧ d.store.authenticatedHistory =
        (c.store.recordPlaintext row).authenticatedHistory := by
  obtain ⟨ready, u, applies, finishes⟩ := settles_of_appliedBy regular taken applied
  obtain ⟨-, -, -, history, -⟩ := finishes_tables finishes
  cases applies with
  | own mine _ _ => exact absurd mine other
  | @message plaintext next _ processes =>
    refine ⟨_, authentic_of_processes processes, rfl, ready, history.trans ?_⟩
    exact recordPlaintext_congr (by rw [regroups_processes processes])
  | commit _ processes =>
    obtain ⟨_, _, _, _, _, _, outcome, _, -, -, -, -, -, -, bound, -, -, -, result, -⟩ := processes
    cases outcome with
    | application _ _ => cases result
    | commit _ =>
      have label := (boundOutcome_commit bound).1
      rw [kind] at label
      cases label

/-- The row under an applied event's identifier is authentic exactly when it is a new row. -/
theorem authentic_iff_new (reachable : Reachable e c) (taken : c.step e move = some d)
    (other : event.sender ≠ e.user) (kind : event.operation.contentType = .application)
    (applied : AppliedBy c d event) :
    (∃ row ∈ d.store.authenticatedHistory, row.messageId = event.id) ∧
    ((∀ row ∈ d.store.authenticatedHistory, row.messageId = event.id → Authentic c.store event row) ↔
      ∀ row ∈ c.store.authenticatedHistory, row.messageId ≠ event.id) := by
  have regular := reachable.regular
  have attributed := Reachable.attributed reachable
  obtain ⟨row, authentic, named, ready, written⟩ :=
    record_of_appliedBy regular taken other kind applied
  by_cases known : ∃ old ∈ c.store.authenticatedHistory, old.messageId = event.id
  · -- The old row keeps its author, which is the client itself.
    obtain ⟨old, present, same⟩ := known
    have mine : old.author = e.user := by
      by_contra apart
      obtain ⟨found, listed, here, settled⟩ := attributed.settled old present apart
      obtain ⟨bytes, state, -, place⟩ := ready.held
      have unsettled := Ordered.unsettled_at_cursor regular.sound.ordered ready place
      obtain rfl := regular.sound.ordered.row_eq_of_id listed place (here.trans same)
      change state.isSettled = true at settled
      rw [unsettled] at settled
      cases settled
    have moved : { old with sequence := row.sequence } ∈ d.store.authenticatedHistory := by
      rw [written, recordPlaintext_old present (same.trans named.symm)]
      exact List.mem_map.mpr ⟨old, present, if_pos (same.trans named.symm)⟩
    refine ⟨⟨_, moved, same⟩, fun all => ?_, fun none => absurd same (none old present)⟩
    have author := (all _ moved same).1
    exact absurd (author.symm.trans mine) other
  · have new : ∀ old ∈ c.store.authenticatedHistory, old.messageId ≠ event.id :=
      fun old present same => known ⟨old, present, same⟩
    rw [recordPlaintext_new (by rw [named]; exact new)] at written
    rw [written]
    refine ⟨⟨row, List.mem_append_right _ List.mem_cons_self, named⟩, fun _ => new, fun _ => ?_⟩
    intro found listed same
    rcases List.mem_append.mp listed with held | single
    · exact absurd same (new found held)
    · obtain rfl := List.mem_singleton.mp single
      exact authentic

def Endorsed (mls : Mls) (event : Event) : Prop :=
  ∃ incoming identities group received after index outcome reached,
    fromWire mls event.operation.body = some incoming ∧
    mls.processIncomingMessage identities group incoming = (.ok received, after) ∧
    boundOutcome event.operation.contentType event.sender reached received = some (index,
      eventAuthenticatedData event.operation.room event.id event.operation.parent, outcome)

theorem endorsed_of_processes
    (processes : Processes s event processed next) : Endorsed mls event := by
  obtain ⟨incoming, group, identities, received, after, index, outcome, _, read, -, -, -, -, result,
    bound, -⟩ := processes
  exact ⟨incoming, identities, group, received, after, index, outcome, _, read, result, bound⟩

theorem Endorsed.data_eq (authenticates : AuthenticatesContent mls) (first : Endorsed mls left)
    (second : Endorsed mls right) (body : left.operation.body = right.operation.body) :
    eventAuthenticatedData left.operation.room left.id left.operation.parent =
      eventAuthenticatedData right.operation.room right.id right.operation.parent ∧
    left.operation.contentType = right.operation.contentType := by
  obtain ⟨incoming, identities, group, received, after, index, outcome, _, read, result, bound⟩ := first
  obtain ⟨incoming', identities', group', received', after', index', outcome', _, read', result',
    bound'⟩ := second
  rw [body, read'] at read
  obtain rfl := Option.some.inj read
  obtain rfl := authenticates _ _ _ _ _ _ _ _ _ result result'
  cases outcome with
  | application text author =>
    obtain ⟨kind, rfl⟩ := boundOutcome_application bound
    cases outcome' with
    | application text' author' =>
      obtain ⟨kind', same⟩ := boundOutcome_application bound'
      injection same with _ data _
      exact ⟨data, kind.trans kind'.symm⟩
    | commit reached =>
      obtain ⟨-, same⟩ := boundOutcome_commit bound'
      cases same
  | commit reached =>
    obtain ⟨kind, rfl⟩ := boundOutcome_commit bound
    cases outcome' with
    | application text' author' =>
      obtain ⟨-, same⟩ := boundOutcome_application bound'
      cases same
    | commit reached' =>
      obtain ⟨kind', same⟩ := boundOutcome_commit bound'
      injection same with _ data _
      exact ⟨data, kind.trans kind'.symm⟩

def Proven (user : UserId) (s : Store mls) : Prop :=
  ∀ event bytes, encodeMessage event = .ok bytes → rowOf event bytes .applied ∈ s.deliveryInbox →
    event.sender ≠ user → Endorsed mls event

theorem proven_step (regular : Regular e c) (taken : c.step e move = some d)
    (proven : Proven e.user c.store) : Proven e.user d.store := by
  intro event bytes encodes after other
  rcases (regular_step regular taken).2 with same | commits
  · rw [same] at after
    exact proven event bytes encodes after other
  by_cases held : ∃ old, rowOf event bytes old ∈ c.store.deliveryInbox
  · obtain ⟨old, before⟩ := held
    by_cases settled : old = .applied
    · subst settled
      exact proven event bytes encodes before other
    obtain ⟨ready, settles⟩ := settles_of_changed regular.sound.ordered commits encodes before
      after (Ne.symm settled)
    obtain ⟨u, applies, -⟩ := applies_of_settles settles after
    cases applies with
    | own mine _ _ => exact absurd mine other
    | message _ processes => exact endorsed_of_processes processes
    | commit _ processes => exact endorsed_of_processes processes
  · -- A row that was not there before is a received one.
    rcases inbox_of_commits commits with same | ⟨new, stores, -⟩ | ⟨new, ready, settles⟩
    · rw [same] at after
      exact absurd ⟨_, after⟩ held
    · obtain ⟨written, -, -, -, rows⟩ := stores_cases stores
      rw [rows] at after
      rcases List.mem_append.mp after with present | single
      · exact absurd ⟨_, present⟩ held
      · cases congrArg InboxRow.state (List.mem_singleton.mp single)
    · obtain ⟨⟨state, rows⟩, -, -⟩ := settles_tables settles
      rw [rows] at after
      obtain ⟨row, present, marked⟩ := List.mem_map.mp after
      refine absurd ⟨row.state, ?_⟩ held
      have shape : row = rowOf event bytes row.state := by
        split at marked
        · cases row
          cases marked
          rfl
        · rw [marked]
          rfl
      rw [← shape]
      exact present

theorem Reachable.proven (reachable : Reachable e c) : Proven e.user c.store := by
  obtain ⟨moves, ran⟩ := reachable
  have kept : Regular e c ∧ Proven e.user c.store := by
    refine @run_keeps _ e _ c (fun d => Regular e d ∧ Proven e.user d.store) ?_ moves
      ⟨governed_off _ fun _ _ never => never, fun _ _ _ present _ => by cases present⟩ ran
    rintro mid move next ⟨regular, proven⟩ taken
    exact ⟨(regular_step regular taken).1, proven_step regular taken proven⟩
  exact kept.2

theorem applied_once {first second : Bytes} (authenticates : AuthenticatesContent mls)
    (reachable : Reachable e c) (encodes : encodeMessage left = .ok first)
    (encodes' : encodeMessage right = .ok second)
    (present : rowOf left first .applied ∈ c.store.deliveryInbox)
    (present' : rowOf right second .applied ∈ c.store.deliveryInbox)
    (other : left.sender ≠ e.user) (other' : right.sender ≠ e.user)
    (body : left.operation.body = right.operation.body) : left = right := by
  have proven := Reachable.proven reachable
  obtain ⟨data, -⟩ := Endorsed.data_eq authenticates (proven left first encodes present other)
    (proven right second encodes' present' other') body
  obtain ⟨-, named, -⟩ := eventAuthenticatedData_injective data
  have same := reachable.regular.sound.ordered.row_eq_of_id present present' named
  have record : first = second := congrArg InboxRow.record same
  rw [← record] at encodes'
  exact event_eq_of_encode encodes encodes'

def labels (event : Event) : UserId × MessageId × RoomId × UInt64 × UInt64 × MlsContentType :=
  (event.sender, event.id, event.operation.room, event.operation.parent, event.operation.epoch,
    event.operation.contentType)

/-- A group accepts a message under one labelling only. -/
theorem labels_of_processes {first second : Processed} {next after : Store mls}
    (authenticates : AuthenticatesContent mls) (accepted : Processes s left first next)
    (processes : Processes s right second after)
    (body : left.operation.body = right.operation.body) : labels left = labels right := by
  obtain ⟨data, kind⟩ := Endorsed.data_eq authenticates (endorsed_of_processes accepted)
    (endorsed_of_processes processes) body
  obtain ⟨room, named, parent⟩ := eventAuthenticatedData_injective data
  obtain ⟨incoming, group, identities, received, _, index, outcome, leaf, read, labelled, held, -, -,
    result, bound, listed, author, -⟩ := accepted
  obtain ⟨incoming', group', identities', received', _, index', outcome', leaf', read', labelled',
    held', -, -, result', bound', listed', author', -⟩ := processes
  rw [body, read'] at read
  obtain rfl := Option.some.inj read
  rw [room, held'] at held
  obtain rfl := Option.some.inj held
  have epoch := Option.some.inj (labelled.symm.trans labelled')
  obtain rfl := authenticates _ _ _ _ _ _ _ _ _ result result'
  have index_eq : index = index' := by
    cases outcome with
    | application text _ =>
      obtain ⟨-, rfl⟩ := boundOutcome_application bound
      cases outcome' with
      | application _ _ =>
        have same := (boundOutcome_application bound').2
        injection same
      | commit _ => cases (boundOutcome_commit bound').2
    | commit reached =>
      obtain ⟨-, rfl⟩ := boundOutcome_commit bound
      cases outcome' with
      | application _ _ => cases (boundOutcome_application bound').2
      | commit _ =>
        have same := (boundOutcome_commit bound').2
        injection same
  rw [index_eq, listed'] at listed
  obtain rfl := Option.some.inj listed
  have sender : left.sender = right.sender := by
    have bytes := Option.some.inj (author.symm.trans author')
    cases senderLeft : left.sender
    cases senderRight : right.sender
    rw [senderLeft, senderRight] at bytes
    exact congrArg UserId.mk (Octets.toList_injective bytes)
  unfold labels
  rw [sender, named, room, parent, epoch, kind]

/-- A message accepted under one labelling changes nothing under another. -/
theorem relabelled_leaves_state {event forged : Event} {bytes : Bytes} {old new : ProcessingState}
    (authenticates : AuthenticatesContent mls) (reachable : Reachable e c)
    (taken : c.step e move = some d) (accepted : Processes c.store event processed next)
    (body : forged.operation.body = event.operation.body) (differs : labels forged ≠ labels event)
    (foreign : ¬(forged.sender = e.user ∧
      Entry c.store forged.id (.appendRoomOperation forged.operation)))
    (encodes : encodeMessage forged = .ok bytes)
    (before : rowOf forged bytes old ∈ c.store.deliveryInbox)
    (after : rowOf forged bytes new ∈ d.store.deliveryInbox) (apart : new ≠ old) :
    d.store.authenticatedHistory = c.store.authenticatedHistory ∧
      d.store.mlsGroups = c.store.mlsGroups ∧ new ≠ .applied := by
  have regular := reachable.regular
  obtain ⟨ready, settles⟩ : AtCursor c.store forged ∧ Settles e c.store forged d.store := by
    rcases (regular_step regular taken).2 with same | commits
    · rw [same] at after
      exact absurd (congrArg InboxRow.state
        (regular.sound.ordered.row_eq_of_id after before rfl)) apart
    · exact settles_of_changed regular.sound.ordered commits encodes before after apart
  have unapplied : ∀ u, ¬Applies e c.store forged u := by
    intro u applies
    cases applies with
    | own mine attempt _ => exact foreign ⟨mine, attempt⟩
    | message _ processes =>
      exact differs (labels_of_processes authenticates processes accepted body)
    | commit _ processes =>
      exact differs (labels_of_processes authenticates processes accepted body)
  have untouched : d.store.authenticatedHistory = c.store.authenticatedHistory ∧
      d.store.mlsGroups = c.store.mlsGroups := by
    generalize d.store = after at settles
    cases settles with
    | apply applies _ => exact absurd applies (unapplied _)
    | block _ => exact ⟨rfl, rfl⟩
    | reject _ _ finishes => exact (finishes_tables finishes).2.2.2
  refine ⟨untouched.1, untouched.2, ?_⟩
  rintro rfl
  obtain ⟨u, applies, -⟩ := applies_of_settles settles after
  exact unapplied u applies

/-- When a message of another sender is applied, the row under the event's identifier is what the
library authenticated exactly if it is a new row. A message is applied for one event, and under
other labels it writes no row and leaves the groups as they are. -/
theorem history_authentic_iff {move : Move mls} (authenticates : AuthenticatesContent mls)
    (reachable : Reachable e c) (taken : c.step e move = some d) :
    (∀ event, event.sender ≠ e.user → event.operation.contentType = .application →
      AppliedBy c d event →
      (∃ row ∈ d.store.authenticatedHistory, row.messageId = event.id) ∧
      ((∀ row ∈ d.store.authenticatedHistory, row.messageId = event.id →
          Authentic c.store event row) ↔
        ∀ row ∈ c.store.authenticatedHistory, row.messageId ≠ event.id)) ∧
    (∀ left right first second, encodeMessage left = .ok first → encodeMessage right = .ok second →
      rowOf left first .applied ∈ c.store.deliveryInbox →
      rowOf right second .applied ∈ c.store.deliveryInbox → left.sender ≠ e.user →
      right.sender ≠ e.user → left.operation.body = right.operation.body → left = right) ∧
    ∀ event forged bytes old new processed next, Processes c.store event processed next →
      forged.operation.body = event.operation.body → labels forged ≠ labels event →
      ¬(forged.sender = e.user ∧ Entry c.store forged.id (.appendRoomOperation forged.operation)) →
      encodeMessage forged = .ok bytes → rowOf forged bytes old ∈ c.store.deliveryInbox →
      rowOf forged bytes new ∈ d.store.deliveryInbox → new ≠ old →
      d.store.authenticatedHistory = c.store.authenticatedHistory ∧
        d.store.mlsGroups = c.store.mlsGroups ∧ new ≠ .applied := by
  refine ⟨?_, ?_, ?_⟩
  · intro event other kind applied
    exact authentic_iff_new reachable taken other kind applied
  · intro left right first second encodes encodes' present present' other other' body
    exact applied_once authenticates reachable encodes encodes' present present' other other' body
  · intro event forged bytes old new processed next accepted body differs foreign encodes before after
      apart
    exact relabelled_leaves_state authenticates reachable taken accepted body differs foreign encodes
      before after apart

end Binding

section Sample

def contentOf (message : Cleartext.Message) : Received :=
  match message.kind with
  | .application => .application message.sender.toNat message.aad message.data
  | .commit => .commit message.sender.toNat message.aad false
  | _ => .other

theorem authenticatesContent_cleartext : AuthenticatesContent Cleartext.mls := by
  have content : ∀ {identities : Provider} {group after : Cleartext.Group}
      {message : Cleartext.Message} {received : Received},
      Cleartext.Group.process identities group message = (.ok received, after) →
      received = contentOf message := by
    intro identities group after message received processed
    unfold contentOf
    unfold Cleartext.Group.process at processed
    split at processed
    · cases processed
    generalize message.kind = kind at processed ⊢
    cases kind with
    | application =>
      cases processed
      rfl
    | commit =>
      dsimp only at processed
      split at processed
      · cases processed
      · cases processed
        rfl
    | _ => cases processed
  intro message identities group received after identities' group' received' after' first second
  rw [content first, content second]

def invitation : WelcomeDelivery where
  roomName := "b"
  cursor := 1
  event := sampleId 20
  room := sampleRoom 8
  sequence := 1
  inviter := sampleUser 2
  attachment :=
    { recipient := sampleUser 1
      body := (toWire Cleartext.mls ⟨.welcome, 1, 0, [], (sampleRoom 8).bytes.toList,
        [(clearEngine (sampleUser 2)).client, (clearEngine (sampleUser 1)).client]⟩).getD []
      signature := Octets.replicate 64 0 }

/-- A message of user 2 in room 8, under an identifier of its choice. -/
def greeting (id : MessageId) : Event where
  id := id
  sender := sampleUser 2
  operation :=
    { room := sampleRoom 8
      parent := 1
      epoch := 1
      contentType := .application
      body := (toWire Cleartext.mls ⟨.application, 1, 0,
        eventAuthenticatedData (sampleRoom 8) id 1, [7], []⟩).getD []
      welcome := none }

def joined : Process Cleartext.mls :=
  let e := clearEngine (sampleUser 1)
  let card := (clearEngine (sampleUser 2)).ownCard
  let c := play e calm (.command (.contactImport card.encode (card.fingerprint e.crypto))) [] []
    founded
  play e calm (.drive 9) [sampleId 31, sampleId 32]
    [.welcomes 0 [invitation] false, .syncIndex [⟨sampleRoom 9, "a", 0⟩] false] c

theorem reachable_joined : Reachable (clearEngine (sampleUser 1)) joined :=
  (reachable_founded.play _ _ _).play _ _ _

/-- The relay is overloaded by user 1's message for room 9, sent as 50, and hands out the message
of user 2 in room 8; the next action applies it. -/
def greeted (id : MessageId) : Process Cleartext.mls :=
  let e := clearEngine (sampleUser 1)
  let c := play e calm (.command (.sendRoomMessage (sampleRoom 9) [5])) [sampleId 40] [] joined
  playFor e calm 42 (.drive 9)
    [sampleId 41, sampleId 42, sampleId 50, sampleId 43, sampleId 44, sampleId 45]
    [.acknowledged, .welcomes 1 [] false, .syncIndex [⟨sampleRoom 9, "a", 0⟩] false,
      .rejected .overloaded, .welcomes 1 [] false,
      .syncIndex [⟨sampleRoom 8, "b", 2⟩, ⟨sampleRoom 9, "a", 0⟩] false,
      .roomEvents (sampleRoom 8) 1 [greeting id] false] c

theorem reachable_greeted (id : MessageId) : Reachable (clearEngine (sampleUser 1)) (greeted id) :=
  (reachable_joined.play _ _ _).playFor _ _ _ _

theorem inbox_follows_cursors_greeted :
    (greeted (sampleId 60)).store.deliveryInbox ≠ [] ∧ InOrder (greeted (sampleId 60)).store :=
  ⟨by decide +kernel, (inbox_follows_cursors (reachable_greeted _)).1⟩

def acquainted (id : MessageId) : Process Cleartext.mls :=
  ((greeted id).step (clearEngine (sampleUser 1)) (.act calm)).getD (greeted id)

def greetingRecord (id : MessageId) : Bytes := (encodeMessage (greeting id)).toOption.getD []

theorem step_greeted
    (some : ((greeted id).step (clearEngine (sampleUser 1)) (.act calm)).isSome = true) :
    (greeted id).step (clearEngine (sampleUser 1)) (.act calm) = .some (acquainted id) := by
  obtain ⟨d, taken⟩ := Option.isSome_iff_exists.mp some
  unfold acquainted
  rw [taken]
  rfl

theorem history_authentic_acquainted :
    ∃ row ∈ (acquainted (sampleId 60)).store.authenticatedHistory, row.messageId = sampleId 60 ∧
      Authentic (greeted (sampleId 60)).store (greeting (sampleId 60)) row := by
  have bound := (history_authentic_iff authenticatesContent_cleartext
    (reachable_greeted (sampleId 60)) (step_greeted (by decide +kernel))).1 (greeting (sampleId 60))
    (by decide +kernel) rfl ⟨greetingRecord (sampleId 60), .received, by decide +kernel, rfl,
      by decide +kernel, by decide +kernel⟩
  have authentic := bound.2.mpr (by decide +kernel)
  have listed : ⟨sampleId 60, sampleRoom 8, 2, sampleUser 2, [7]⟩ ∈
      (acquainted (sampleId 60)).store.authenticatedHistory := by decide +kernel
  exact ⟨_, listed, rfl, authentic _ listed rfl⟩

/-- A message of user 2 under the identifier of user 1's own moves the row of user 1. -/
theorem greeting_moves_own_row : ∃ (c d : Process Cleartext.mls) (event : Event) (row : HistoryRow),
    Reachable (clearEngine (sampleUser 1)) c ∧
    c.step (clearEngine (sampleUser 1)) (.act calm) = some d ∧ event.sender ≠ sampleUser 1 ∧
    event.operation.contentType = .application ∧ AppliedBy c d event ∧
    row ∈ d.store.authenticatedHistory ∧ row.messageId = event.id ∧
    ¬Authentic c.store event row := by
  refine ⟨greeted (sampleId 50), acquainted (sampleId 50), greeting (sampleId 50),
    ⟨sampleId 50, sampleRoom 9, 2, sampleUser 1, [5]⟩, reachable_greeted _,
    step_greeted (by decide +kernel), by decide +kernel, rfl, ?_, by decide +kernel, rfl, ?_⟩
  · exact ⟨greetingRecord (sampleId 50), .received, by decide +kernel, rfl, by decide +kernel,
      by decide +kernel⟩
  · rintro ⟨author, -⟩
    exact absurd author (by decide +kernel)

end Sample

end Grotto.Client.History
