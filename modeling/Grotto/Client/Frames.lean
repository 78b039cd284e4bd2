/- GID: Grotto/Client/Frames
   digest: What the statements of the client database leave as it was. -/

import Grotto.Base.Keyed
import Grotto.Client.Changes
import Grotto.Protocol.Sizes

set_option autoImplicit false

namespace Grotto.Client.Frames

open Format.Varint (Bytes)
open Protocol.Records Protocol.Wire Protocol.Sizes
open Protocol.Transcripts
open Library Tables Groups
open Effects Delivery Changes

variable {mls : Mls} {s t u : Store mls}

structure Frame (s t : Store mls) : Prop where
  cursors : t.deliveryCursors = s.deliveryCursors
  inbox : t.deliveryInbox = s.deliveryInbox
  intents : t.deliveryIntents = s.deliveryIntents
  outbox : t.outbox = s.outbox
  groups : ∀ room, (t.mlsGroups room).isSome = (s.mlsGroups room).isSome

theorem Frame.refl (s : Store mls) : Frame s s := ⟨rfl, rfl, rfl, rfl, fun _ => rfl⟩

theorem Frame.trans (first : Frame s t) (second : Frame t u) : Frame s u where
  cursors := second.cursors.trans first.cursors
  inbox := second.inbox.trans first.inbox
  intents := second.intents.trans first.intents
  outbox := second.outbox.trans first.outbox
  groups room := (second.groups room).trans (first.groups room)

theorem recordPlaintext_congr {row : HistoryRow}
    (same : t.authenticatedHistory = s.authenticatedHistory) :
    (t.recordPlaintext row).authenticatedHistory = (s.recordPlaintext row).authenticatedHistory := by
  unfold Store.recordPlaintext
  rw [same]
  split
  · rfl
  · rfl

variable {client : mls.MlsClient} {epoch : UInt64}

section Groups

variable {room : RoomId} {package aad body welcome : Bytes} {plaintext aad bytes : Bytes}
variable {processed : Processed}

theorem frame_writeGroup {group next : mls.Group} (held : s.mlsGroups room = some group) :
    Frame s (s.writeGroup room next) := by
  refine ⟨rfl, rfl, rfl, rfl, fun other => ?_⟩
  by_cases same : other = room
  · rw [same, Store.writeGroup_self, held]
    rfl
  · rw [Store.writeGroup_of_ne s same]

def Regroups (s t : Store mls) : Prop :=
  t = { s with mlsGroups := t.mlsGroups, mlsPackages := t.mlsPackages }

theorem regroups_founds {unread : Prop} (founds : Founds client unread s room t) : Regroups s t := by
  rcases founds with ⟨_, -, rfl⟩ | ⟨_, _, -, -, rfl⟩
  · rfl
  · rfl

theorem regroups_joins {unread : Prop} {welcome : Bytes} (joins : Joins client unread s room welcome t) :
    Regroups s t := by
  rcases joins with ⟨_, -, rfl⟩ | ⟨_, _, _, -, -, -, -, -, -, rfl⟩
  · rfl
  · rfl

theorem regroups_encrypts
    (encrypts : Encrypts s room plaintext aad epoch bytes t) : Regroups s t := by
  obtain ⟨_, _, _, _, -, -, -, -, -, rfl⟩ := encrypts
  rfl

theorem regroups_adds (adds : Adds s room package aad epoch body welcome t) : Regroups s t := by
  obtain ⟨_, _, _, _, _, _, _, _, -, -, -, -, -, -, -, -, -, rfl⟩ := adds
  rfl

theorem regroups_merges (merges : Merges s room t) : Regroups s t := by
  obtain ⟨_, _, _, -, -, -, rfl⟩ := merges
  rfl

theorem regroups_processes {event : Event}
    (processes : Processes s event processed t) : Regroups s t := by
  obtain ⟨_, _, _, _, _, _, _, _, -, -, -, -, -, -, -, -, -, -, -, rfl⟩ := processes
  rfl

theorem frame_encrypts (encrypts : Encrypts s room plaintext aad epoch bytes t) : Frame s t := by
  obtain ⟨group, seed, message, after, held, -, -, -, -, rfl⟩ := encrypts
  exact frame_writeGroup held

theorem frame_adds (adds : Adds s room package aad epoch body welcome t) : Frame s t := by
  obtain ⟨group, _, _, _, _, _, _, after, held, -, -, -, -, -, -, -, -, rfl⟩ := adds
  exact frame_writeGroup held

theorem frame_discards (discards : Discards s room t) : Frame s t := by
  obtain ⟨group, held, rfl⟩ := discards
  exact frame_writeGroup held

theorem frame_merges (merges : Merges s room t) : Frame s t := by
  obtain ⟨group, identities, after, held, -, -, rfl⟩ := merges
  exact frame_writeGroup held

theorem frame_processes {event : Event}
    (processes : Processes s event processed t) : Frame s t := by
  obtain ⟨_, group, _, _, after, _, _, _, -, -, held, -, -, -, -, -, -, -, -, rfl⟩ := processes
  exact frame_writeGroup held

end Groups

section Statements

variable {request : Request}

theorem frame_recordPlaintext {row : HistoryRow} : Frame s (s.recordPlaintext row) := by
  rw [recordPlaintext_rest]
  exact ⟨rfl, rfl, rfl, rfl, fun _ => rfl⟩

theorem frame_insertContact {user : UserId} {row : ContactRow} :
    Frame s (s.insertContact user row) := by
  unfold Store.insertContact
  split
  · exact Frame.refl s
  · exact ⟨rfl, rfl, rfl, rfl, fun _ => rfl⟩

theorem frame_upsertRoom {room : RoomId} {name origin : String}
    (named : s.upsertRoom room name origin = .ok t) : Frame s t := by
  rw [upsertRoom_rest named]
  exact ⟨rfl, rfl, rfl, rfl, fun _ => rfl⟩

theorem frame_forgets (forgets : Forgets s request t) : Frame s t := by
  unfold Forgets at forgets
  split at forgets
  · split at forgets
    · exact frame_discards forgets
    · rw [forgets]
      exact Frame.refl s
  · rw [forgets]
    exact Frame.refl s

theorem regroups_forgets (forgets : Forgets s request t) : Regroups s t := by
  unfold Forgets at forgets
  split at forgets
  · split at forgets
    · obtain ⟨_, -, rfl⟩ := forgets
      rfl
    · rw [forgets]
      rfl
  · rw [forgets]
    rfl

theorem frame_builds {e : Engine mls} {row : IntentRow} {id : MessageId} {parent : Nat}
    (builds : Builds e s row id parent request t) : Frame s t := by
  cases builds with
  | reservation _ _ => exact Frame.refl _
  | addition _ _ adds => exact frame_adds adds
  | message _ _ _ _ encrypts => exact (frame_encrypts encrypts).trans frame_recordPlaintext

end Statements

section Outbox

/-- The outbox holds the request under `id`. -/
def Carries (s : Store mls) (id : MessageId) (request : Request) : Prop :=
  ∃ row ∈ s.outbox, row.requestId = id ∧
    encodeMessage (ClientMessage.delivery id request) = .ok row.message

variable {id other : MessageId} {request asked : Request}

theorem Carries.congr (same : t.outbox = s.outbox) : Carries t id request ↔ Carries s id request := by
  unfold Carries
  rw [same]

theorem carries_removeOutbox :
    Carries (s.removeOutbox other) id request ↔ id ≠ other ∧ Carries s id request := by
  constructor
  · rintro ⟨row, kept, rfl, encodes⟩
    obtain ⟨present, apart⟩ := List.mem_filter.mp kept
    exact ⟨of_decide_eq_true apart, row, present, rfl, encodes⟩
  · rintro ⟨apart, row, present, rfl, encodes⟩
    exact ⟨row, List.mem_filter.mpr ⟨present, decide_eq_true apart⟩, rfl, encodes⟩

theorem carries_findOutbox (carries : Carries s id request) : (s.findOutbox id).isSome := by
  obtain ⟨row, present, named, -⟩ := carries
  exact List.find?_isSome.mpr ⟨row, present, decide_eq_true named⟩

theorem journals_cases (journals : Journals s id request t) :
    t = s ∧ Carries s id request ∨
      ∃ row : OutboxRow, row.requestId = id ∧ s.findOutbox id = none ∧
        encodeMessage (ClientMessage.delivery id request) = .ok row.message ∧
        t = { s with outbox := s.outbox ++ [row] } := by
  obtain ⟨message, encodes, saved⟩ := journals
  unfold Store.saveOutbox at saved
  split at saved
  · rename_i row found
    split at saved
    · cases saved
    rename_i same
    refine .inl ⟨(Except.ok.inj saved).symm, row, List.mem_of_find?_eq_some found, ?_, ?_⟩
    · exact of_decide_eq_true (List.find?_some found :)
    · rw [not_not.mp fun apart => same (.inr apart)]
      exact encodes
  · rename_i missing
    exact .inr ⟨_, rfl, missing, encodes, (Except.ok.inj saved).symm⟩

theorem journals_rest (journals : Journals s id request t) : t = { s with outbox := t.outbox } := by
  rcases journals_cases journals with ⟨rfl, -⟩ | ⟨row, -, -, -, rfl⟩
  · rfl
  · rfl

theorem journals_carries (journals : Journals s id request t) :
    Carries t other asked ↔ Carries s other asked ∨ other = id ∧ asked = request := by
  rcases journals_cases journals with ⟨rfl, carries⟩ | ⟨row, rfl, -, encodes, rfl⟩
  · constructor
    · exact .inl
    · rintro (held | ⟨rfl, rfl⟩)
      · exact held
      · exact carries
  · constructor
    · rintro ⟨found, present, rfl, read⟩
      rcases List.mem_append.mp present with old | new
      · exact .inl ⟨found, old, rfl, read⟩
      · obtain rfl := List.mem_singleton.mp new
        exact .inr ⟨rfl, delivery_eq_of_encode read encodes⟩
    · rintro (⟨found, present, named, read⟩ | ⟨rfl, rfl⟩)
      · exact ⟨found, List.mem_append_left _ present, named, read⟩
      · exact ⟨row, List.mem_append_right _ List.mem_cons_self, rfl, encodes⟩

end Outbox

theorem creates_rest {room : RoomId} {name : String} {id : MessageId} {unread : Prop} {v : Store mls}
    (founds : Founds client unread s room u) (named : u.upsertRoom room name "created" = .ok v) :
    (v.insertCursorOrIgnore room 0).removeOutbox id = { s with
      mlsGroups := u.mlsGroups
      mlsPackages := u.mlsPackages
      rooms := v.rooms
      deliveryCursors := if (s.deliveryCursors room).isSome then s.deliveryCursors
        else Function.update s.deliveryCursors room (some 0)
      outbox := (s.removeOutbox id).outbox } := by
  have named' := upsertRoom_rest named
  have founded := regroups_founds founds
  unfold Store.insertCursorOrIgnore
  rw [named', founded]
  split
  · rfl
  · rfl

theorem joins_rest {e : Engine mls} {row : WelcomeInboxRow} {welcome : WelcomeDelivery}
    {group : mls.Group} (joins : JoinsWelcome e s row welcome group t) :
    ∃ u w, (∃ unread, Joins e.client unread s welcome.room welcome.attachment.body u) ∧
      s.deliveryCursors welcome.room = none ∧
      w = { s with
        mlsGroups := u.mlsGroups
        mlsPackages := u.mlsPackages
        rooms := w.rooms
        welcomeInbox := w.welcomeInbox
        deliveryCursors := Function.update s.deliveryCursors welcome.room
          (some welcome.sequence.toNat) } ∧
      Journals w (acknowledgementId e.crypto.sha256 e.user [] [UInt64.ofNat row.cursor])
        (.acknowledge [] [UInt64.ofNat row.cursor]) t := by
  obtain ⟨-, -, ⟨unread, u, v, w, joins, -, placed, named, journals⟩, -⟩ := joins
  obtain ⟨free, rfl⟩ := insertCursor_rest placed
  have named' := upsertRoom_rest named
  have joined := regroups_joins joins
  have same : u.deliveryCursors = s.deliveryCursors := by rw [joined]
  refine ⟨u, w.setWelcomeState row.cursor .applied, ⟨unread, joins⟩, ?_, ?_, journals⟩
  · rw [← same]
    exact free
  · unfold Store.setWelcomeState
    rw [named', joined]

theorem stores_cases {event : Event} (stores : Stores s event t) :
    ∃ bytes, event.operation.parent.toNat + 1 ≤ i64Max ∧ encodeMessage event = .ok bytes ∧
      (∀ row ∈ s.deliveryInbox, row.eventId ≠ event.id ∧
        (row.room, row.sequence) ≠ (event.operation.room, event.operation.parent.toNat + 1)) ∧
      t = { s with deliveryInbox := s.deliveryInbox ++ [rowOf event bytes .received] } := by
  obtain ⟨bytes, bound, encodes, inserted⟩ := stores
  unfold Store.insertInbox at inserted
  split at inserted
  · cases inserted
  rename_i free
  refine ⟨bytes, bound, encodes, fun row present => ?_, (Except.ok.inj inserted).symm⟩
  have missing : ¬(row.eventId = event.id ∨ row.room = event.operation.room ∧
      row.sequence = event.operation.parent.toNat + 1) := fun same =>
    free (List.find?_isSome.mpr ⟨row, present, decide_eq_true same⟩)
  refine ⟨fun same => missing (.inl same), fun same => missing (.inr ?_)⟩
  exact ⟨congrArg Prod.fst same, congrArg Prod.snd same⟩

structure Releases (id : MessageId) (s t : Store mls) : Prop where
  outbox : t.outbox = s.outbox.filter fun row => decide (row.requestId ≠ id)
  ids : (t.deliveryIntents.map IntentRow.id).Sublist (s.deliveryIntents.map IntentRow.id)
  rooms : (t.deliveryIntents.map IntentRow.room).Sublist (s.deliveryIntents.map IntentRow.room)
  kept : ∀ row ∈ s.deliveryIntents, row.attempt ≠ some id → row ∈ t.deliveryIntents
  origin : ∀ row ∈ t.deliveryIntents, row ∈ s.deliveryIntents ∧ row.attempt ≠ some id ∨
    row.attempt = none
  cursors : t.deliveryCursors = s.deliveryCursors
  inbox : t.deliveryInbox = s.deliveryInbox
  groups : ∀ room, (t.mlsGroups room).isSome = (s.mlsGroups room).isSome

section Releases

variable {id : MessageId}

theorem Frame.releases (frame : Frame s t) (releases : Releases id t u) : Releases id s u where
  outbox := by rw [← frame.outbox]; exact releases.outbox
  ids := by rw [← frame.intents]; exact releases.ids
  rooms := by rw [← frame.intents]; exact releases.rooms
  kept := by rw [← frame.intents]; exact releases.kept
  origin := by rw [← frame.intents]; exact releases.origin
  cursors := releases.cursors.trans frame.cursors
  inbox := releases.inbox.trans frame.inbox
  groups room := (releases.groups room).trans (frame.groups room)

theorem Releases.frame (releases : Releases id s t) (frame : Frame t u) : Releases id s u where
  outbox := frame.outbox.trans releases.outbox
  ids := by rw [frame.intents]; exact releases.ids
  rooms := by rw [frame.intents]; exact releases.rooms
  kept := by rw [frame.intents]; exact releases.kept
  origin := by rw [frame.intents]; exact releases.origin
  cursors := frame.cursors.trans releases.cursors
  inbox := frame.inbox.trans releases.inbox
  groups room := (frame.groups room).trans (releases.groups room)

theorem Releases.carries {other : MessageId} {request : Request} (releases : Releases id s t) :
    Carries t other request ↔ other ≠ id ∧ Carries s other request :=
  (Carries.congr (s := s.removeOutbox id) releases.outbox).trans carries_removeOutbox

private theorem releases_rewrite (id : MessageId) (chosen : IntentRow → Bool) (change : IntentRow → IntentRow)
    (id_eq : ∀ row, (change row).id = row.id) (room_eq : ∀ row, (change row).room = row.room)
    (cleared : ∀ row, (change row).attempt = none)
    (all : ∀ row ∈ s.deliveryIntents, chosen row = true ↔ row.attempt = some id) :
    Releases id s { s with
      outbox := s.outbox.filter fun row => decide (row.requestId ≠ id)
      deliveryIntents := s.deliveryIntents.map fun row => if chosen row then change row else row } := by
  have mapped : ∀ {β : Type} (f : IntentRow → β), (∀ row, f (change row) = f row) →
      (s.deliveryIntents.map fun row => if chosen row then change row else row).map f =
        s.deliveryIntents.map f := by
    intro β f same
    rw [List.map_map]
    refine List.map_congr_left fun row _ => ?_
    simp only [Function.comp_apply]
    split
    · exact same row
    · rfl
  refine ⟨rfl, ?_, ?_, fun row present open' => ?_, fun row present => ?_, rfl, rfl, fun _ => rfl⟩
  · exact (mapped IntentRow.id id_eq) ▸ List.Sublist.refl _
  · exact (mapped IntentRow.room room_eq) ▸ List.Sublist.refl _
  · refine List.mem_map.mpr ⟨row, present, ?_⟩
    rw [if_neg fun marked => open' ((all row present).mp marked)]
  obtain ⟨old, held, rfl⟩ := List.mem_map.mp present
  by_cases marked : chosen old = true
  · rw [if_pos marked]
    exact .inr (cleared old)
  · rw [if_neg marked]
    exact .inl ⟨held, fun same => marked ((all old held).mpr same)⟩

theorem releases_clearAttempt : Releases id s ((s.removeOutbox id).clearAttempt id) := by
  have rewritten := releases_rewrite (s := s) id (fun row => decide (row.attempt = some id))
    (fun row => { row with attempt := none }) (fun _ => rfl) (fun _ => rfl) (fun _ => rfl)
    fun row _ => decide_eq_true_iff
  simp only [decide_eq_true_eq] at rewritten
  exact rewritten

theorem releases_installPackage {recipient : UserId} {package : Bytes}
    (all : ∀ row ∈ s.deliveryIntents, row.attempt = some id → row.target = some recipient) :
    Releases id s ((s.installPackage id recipient package).2.removeOutbox id) := by
  refine releases_rewrite id (Store.reservedBy id recipient)
    (fun row => { row with package := some package, attempt := none })
    (fun _ => rfl) (fun _ => rfl) (fun _ => rfl) fun row present => ?_
  unfold Store.reservedBy
  rw [decide_eq_true_iff]
  exact ⟨fun both => both.1, fun waiting => ⟨waiting, all row present waiting⟩⟩

theorem releases_deleteIntents : Releases id s ((s.deleteIntents id).removeOutbox id) := by
  refine ⟨rfl, ?_, ?_, fun row present waiting => ?_, fun row present => .inl ?_, rfl, rfl,
    fun _ => rfl⟩
  · exact List.filter_sublist.map _
  · exact List.filter_sublist.map _
  · exact List.mem_filter.mpr ⟨present, decide_eq_true waiting⟩
  · obtain ⟨held, waiting⟩ := List.mem_filter.mp present
    exact ⟨held, of_decide_eq_true waiting⟩

theorem releases_removeOutbox (idle : ∀ row ∈ s.deliveryIntents, row.attempt ≠ some id) :
    Releases id s (s.removeOutbox id) :=
  ⟨rfl, List.Sublist.refl _, List.Sublist.refl _, fun _ present _ => present,
    fun row present => .inl ⟨present, idle row present⟩, rfl, rfl, fun _ => rfl⟩

end Releases

section Events

variable {e : Engine mls} {event : Event}

theorem finishes_tables {state : ProcessingState} (finishes : Finishes e s event state t) :
    t.deliveryInbox = (s.setInboxState event.id state).deliveryInbox ∧
      t.deliveryIntents = s.deliveryIntents ∧ t.welcomeInbox = s.welcomeInbox ∧
      t.authenticatedHistory = s.authenticatedHistory ∧ t.mlsGroups = s.mlsGroups := by
  rw [journals_rest finishes.2]
  exact ⟨rfl, rfl, rfl, rfl, rfl⟩

theorem merges_own (merges : if event.operation.contentType = .commit
    then Merges s event.operation.room t else t = s) : Frame s t ∧ Regroups s t := by
  split at merges
  · exact ⟨frame_merges merges, regroups_merges merges⟩
  · rw [merges]
    exact ⟨Frame.refl s, rfl⟩

theorem applies_cases (applies : Applies e s event t) :
    event.sender ≠ e.user ∧ Frame s t ∨
      event.sender = e.user ∧ Entry s event.id (.appendRoomOperation event.operation) ∧
        Releases event.id s t := by
  cases applies with
  | @own next mine attempt merges =>
    refine .inr ⟨mine, attempt, (merges_own merges).1.releases ?_⟩
    exact releases_deleteIntents.frame ⟨rfl, rfl, rfl, rfl, fun _ => rfl⟩
  | message other processes =>
    exact .inl ⟨other, (frame_processes processes).trans frame_recordPlaintext⟩
  | commit other processes => exact .inl ⟨other, frame_processes processes⟩

theorem settles_tables (settles : Settles e s event t) :
    (∃ state, t.deliveryInbox = (s.setInboxState event.id state).deliveryInbox) ∧
    (∀ row ∈ t.deliveryIntents, row.attempt ≠ none → row ∈ s.deliveryIntents) ∧
    ∀ room, (t.mlsGroups room).isSome = (s.mlsGroups room).isSome := by
  have finished : ∀ {u : Store mls} {state : ProcessingState}, Finishes e u event state t →
      u.deliveryInbox = s.deliveryInbox →
      (∀ row ∈ u.deliveryIntents, row.attempt ≠ none → row ∈ s.deliveryIntents) →
      (∀ room, (u.mlsGroups room).isSome = (s.mlsGroups room).isSome) →
      (∃ state, t.deliveryInbox = (s.setInboxState event.id state).deliveryInbox) ∧
      (∀ row ∈ t.deliveryIntents, row.attempt ≠ none → row ∈ s.deliveryIntents) ∧
      ∀ room, (t.mlsGroups room).isSome = (s.mlsGroups room).isSome := by
    intro u state finishes inbox intents groups
    obtain ⟨rows, kept, -, -, held⟩ := finishes_tables finishes
    rw [rows, kept, held]
    refine ⟨⟨state, ?_⟩, intents, groups⟩
    change u.deliveryInbox.map _ = s.deliveryInbox.map _
    rw [inbox]
  cases settles with
  | apply applies finishes =>
    rcases applies_cases applies with ⟨-, frame⟩ | ⟨-, -, releases⟩
    · refine finished finishes frame.inbox (fun row present _ => ?_) frame.groups
      rw [← frame.intents]
      exact present
    · refine finished finishes releases.inbox (fun row present waiting => ?_) releases.groups
      rcases releases.origin row present with ⟨held, -⟩ | idle
      · exact held
      · exact absurd idle waiting
  | block other => exact ⟨⟨.blocked, rfl⟩, fun _ present _ => present, fun _ => rfl⟩
  | reject other refuses finishes =>
    exact finished finishes rfl (fun _ present _ => present) fun _ => rfl

end Events

section Unresolved

theorem isUnresolved_iff {room : RoomId} : isUnresolved s room = true ↔
    ∃ row ∈ s.deliveryIntents, ∃ attempt, row.attempt = some attempt ∧ row.room = room ∧
      (s.findOutbox attempt).isSome = true ∧ ∀ event ∈ s.deliveryInbox, event.eventId ≠ attempt := by
  unfold isUnresolved
  rw [List.any_eq_true]
  constructor
  · rintro ⟨row, present, open'⟩
    cases waiting : row.attempt with
    | none =>
      rw [waiting] at open'
      cases open'
    | some attempt =>
      rw [waiting] at open'
      simp only [Bool.and_eq_true, decide_eq_true_eq, Bool.not_eq_true'] at open'
      obtain ⟨⟨place, sent⟩, unknown⟩ := open'
      refine ⟨row, present, attempt, waiting, place, sent, fun event listed same => ?_⟩
      exact List.any_eq_false.mp unknown event listed (decide_eq_true same)
  · rintro ⟨row, present, attempt, waiting, place, sent, unknown⟩
    refine ⟨row, present, ?_⟩
    rw [waiting]
    simp only [Bool.and_eq_true, decide_eq_true_eq, Bool.not_eq_true']
    refine ⟨⟨place, sent⟩, List.any_eq_false.mpr fun event listed same => ?_⟩
    exact unknown event listed (of_decide_eq_true same)

end Unresolved

end Grotto.Client.Frames
