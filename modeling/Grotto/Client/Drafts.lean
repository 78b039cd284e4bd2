/- GID: Grotto/Client/Drafts
   digest: The client's own messages in its history, and the events that stand behind them. -/

import Grotto.Client.History

set_option autoImplicit false

namespace Grotto.Client.Drafts

open Format.Varint (Bytes)
open Protocol.Records Protocol.Wire Protocol.Sizes
open Library Tables
open Delivery Changes Frames Consistency
open Machine Inbox History

variable {mls : Mls} {s t : Store mls} {e : Engine mls}

def Taken (s : Store mls) (id : MessageId) : Prop :=
  (∃ row ∈ s.deliveryInbox, row.eventId = id) ∨ ∃ row ∈ s.authenticatedHistory, row.messageId = id

/-- A history row stands for an append that is still sent, or for a settled event. -/
inductive Backs (s : Store mls) (row : HistoryRow) : Prop
  | sent (operation : Append) (carries : Carries s row.messageId (.appendRoomOperation operation))
      (kind : operation.contentType = .application) (room : operation.room = row.room)
      (place : operation.parent.toNat + 1 = row.sequence)
  | settled (found : InboxRow) (present : found ∈ s.deliveryInbox)
      (named : found.eventId = row.messageId) (room : found.room = row.room)
      (place : found.sequence = row.sequence) (done : found.state.isSettled = true)

/-- Every history row is backed, and the events under the identifiers of appends are theirs. -/
structure Backed (user : UserId) (s : Store mls) : Prop where
  rows : ∀ row ∈ s.authenticatedHistory, Backs s row
  own : ∀ id operation, Carries s id (.appendRoomOperation operation) →
    ∀ found ∈ s.deliveryInbox, found.eventId = id →
      encodeMessage (⟨id, user, operation⟩ : Event) = .ok found.record

variable {id : MessageId}

theorem Backed.cursor {user : UserId} (backed : Backed user s) (sound : Sound user s)
    {operation : Append} (carries : Carries s id (.appendRoomOperation operation)) :
    s.deliveryCursors operation.room = some operation.parent.toNat := by
  rcases sound.anchored id operation carries with here | ⟨row, present, named, apart⟩
  · exact here
  · exact absurd (backed.own id operation carries row present named) apart

/-- Two rows of a room have two places. -/
theorem Backed.row_eq_of_place {user : UserId} (backed : Backed user s) (sound : Sound user s)
    (attributed : Attributed user s) {row other : HistoryRow}
    (left : row ∈ s.authenticatedHistory) (right : other ∈ s.authenticatedHistory)
    (room : row.room = other.room) (place : row.sequence = other.sequence) : row = other := by
  have crossed : ∀ {row other : HistoryRow} {operation : Append} {found : InboxRow},
      Carries s row.messageId (.appendRoomOperation operation) → operation.room = row.room →
      operation.parent.toNat + 1 = row.sequence → found ∈ s.deliveryInbox →
      found.room = other.room → found.sequence = other.sequence → found.state.isSettled = true →
      row.room = other.room → row.sequence ≠ other.sequence := by
    intro row other operation found carries here next present there at' done room place
    obtain ⟨n, cursor, settled⟩ := sound.ordered.settled found present
    have stands := backed.cursor sound carries
    rw [here, room, ← there, cursor] at stands
    have low := settled.mp done
    have same := Option.some.inj stands
    omega
  refine attributed.row_eq left right ?_
  cases backed.rows row left with
  | sent operation carries _ here next =>
    cases backed.rows other right with
    | sent operation' carries' _ here' next' =>
      exact (sound.linked.append_once carries carries' ((here.trans room).trans here'.symm)).1
    | settled found present _ there at' done =>
      exact absurd place (crossed carries here next present there at' done room)
  | settled found present named there at' done =>
    cases backed.rows other right with
    | sent operation carries _ here next =>
      exact absurd place.symm (crossed carries here next present there at' done room.symm)
    | settled found' present' named' there' at'' _ =>
      have same := sound.ordered.row_eq_of_place present present'
        ((there.trans room).trans there'.symm) ((at'.trans place).trans at''.symm)
      rw [← named, ← named', same]

variable {request : Request} {u : Store mls} {state : ProcessingState} {event : Event}

section Steps

variable {user : UserId}

theorem Backs.mono {row : HistoryRow} (backs : Backs s row)
    (carries : ∀ operation, Carries s row.messageId (.appendRoomOperation operation) →
      operation.contentType = .application →
      Carries t row.messageId (.appendRoomOperation operation))
    (persists : Persists s t) : Backs t row := by
  cases backs with
  | sent operation held kind room place =>
    exact .sent operation (carries operation held kind) kind room place
  | settled found present named room place done =>
    obtain ⟨state, kept, same⟩ := persists found present
    exact .settled _ kept named room place (by rw [← same done] at done; exact done)

theorem Backed.keep (backed : Backed user s)
    (history : ∀ row ∈ t.authenticatedHistory, row ∈ s.authenticatedHistory)
    (carries : ∀ id operation, Carries t id (.appendRoomOperation operation) →
      Carries s id (.appendRoomOperation operation))
    (kept : ∀ row ∈ t.authenticatedHistory, ∀ operation,
      Carries s row.messageId (.appendRoomOperation operation) →
      operation.contentType = .application →
      Carries t row.messageId (.appendRoomOperation operation))
    (persists : Persists s t)
    (origin : ∀ found ∈ t.deliveryInbox, ∃ row ∈ s.deliveryInbox,
      row.eventId = found.eventId ∧ row.record = found.record) : Backed user t where
  rows row listed := (backed.rows row (history row listed)).mono (kept row listed) persists
  own id operation held found listed named := by
    obtain ⟨row, present, same, record⟩ := origin found listed
    rw [← record]
    exact backed.own id operation (carries id operation held) row present (same.trans named)

theorem origin_same (inbox : t.deliveryInbox = s.deliveryInbox) :
    ∀ found ∈ t.deliveryInbox, ∃ row ∈ s.deliveryInbox,
      row.eventId = found.eventId ∧ row.record = found.record := by
  intro found listed
  rw [inbox] at listed
  exact ⟨found, listed, rfl, rfl⟩

theorem Backed.congr (backed : Backed user s)
    (history : t.authenticatedHistory = s.authenticatedHistory)
    (inbox : t.deliveryInbox = s.deliveryInbox)
    (carries : ∀ id operation, Carries t id (.appendRoomOperation operation) ↔
      Carries s id (.appendRoomOperation operation)) : Backed user t := by
  refine backed.keep ?_ (fun id operation => (carries id operation).mp)
    (fun row _ operation held _ => (carries _ operation).mpr held) (persists_of_same inbox)
    (origin_same inbox)
  intro row listed
  rw [history] at listed
  exact listed

theorem carries_journaled (journals : Journals s id request t)
    (other : ∀ operation, request ≠ .appendRoomOperation operation) (named : MessageId)
    (operation : Append) : Carries t named (.appendRoomOperation operation) ↔
      Carries s named (.appendRoomOperation operation) := by
  rw [journals_carries journals]
  constructor
  · rintro (held | ⟨-, same⟩)
    · exact held
    · exact absurd same.symm (other operation)
  · exact .inl

theorem carries_removed (linked : Linked s) (carried : Carries s id request)
    (other : ∀ operation, request ≠ .appendRoomOperation operation)
    (outbox : t.outbox = (s.removeOutbox id).outbox) (named : MessageId) (operation : Append) :
    Carries t named (.appendRoomOperation operation) ↔
      Carries s named (.appendRoomOperation operation) := by
  rw [Carries.congr outbox, carries_removeOutbox]
  refine ⟨fun both => both.2, fun held => ⟨?_, held⟩⟩
  rintro rfl
  exact other operation (linked.carried_once carried held)

theorem origin_setInboxState (inbox : t.deliveryInbox = (u.setInboxState id state).deliveryInbox)
    (same : u.deliveryInbox = s.deliveryInbox) :
    ∀ found ∈ t.deliveryInbox, ∃ row ∈ s.deliveryInbox,
      row.eventId = found.eventId ∧ row.record = found.record := by
  intro found listed
  rw [inbox] at listed
  obtain ⟨row, present, rfl⟩ := List.mem_map.mp listed
  rw [same] at present
  refine ⟨row, present, ?_⟩
  split
  · exact ⟨rfl, rfl⟩
  · exact ⟨rfl, rfl⟩

theorem Backed.completes (backed : Backed e.user s) (sound : Sound e.user s) {response : Response}
    (carried : Carries s id request)
    (spared : ∀ operation reason, request = .appendRoomOperation operation →
      response = .rejected reason → operation.contentType = .application →
      isPassing reason = true) (completes : Completes e s id request response t) :
    Backed e.user t := by
  cases completes with
  | create founds named =>
    rw [creates_rest founds named]
    exact backed.congr rfl rfl (carries_removed sound.linked carried (fun _ same => by cases same) rfl)
  | close closes =>
    refine backed.congr rfl rfl (carries_removed sound.linked carried ?_ rfl)
    rintro operation rfl
    cases closes
  | reserve _ _ _ _ =>
    exact backed.congr rfl rfl (carries_removed sound.linked carried (fun _ same => by cases same) rfl)
  | @accept operation t stores =>
    obtain ⟨bytes, -, encodes, apart, rfl⟩ := stores_cases stores
    refine ⟨fun row listed => ?_, fun named other held found listed same => ?_⟩
    · exact (backed.rows row listed).mono (fun _ held _ => held)
        (persists_of_subset fun _ present => List.mem_append_left _ present)
    rcases List.mem_append.mp listed with present | single
    · exact backed.own named other held found present same
    · obtain rfl := List.mem_singleton.mp single
      obtain rfl : id = named := same
      obtain rfl := Request.appendRoomOperation.inj (sound.linked.carried_once carried held)
      exact encodes
  | @conflict operation head u moved forgets =>
    have released : Releases id s (((u.removeOutbox id).deleteHistory id).clearAttempt id) :=
      (frame_forgets forgets).releases
        (releases_clearAttempt.frame ⟨rfl, rfl, rfl, rfl, fun _ => rfl⟩)
    refine backed.keep ?_ (fun named operation held => (released.carries.mp held).2) ?_
      (persists_of_same released.inbox) (origin_same released.inbox)
    · intro row listed
      rw [regroups_forgets forgets] at listed
      exact (List.mem_filter.mp listed).1
    · intro row listed operation held _
      have apart : row.messageId ≠ id := of_decide_eq_true (List.mem_filter.mp listed).2
      exact released.carries.mpr ⟨apart, held⟩
  | @refuse request reason u lasting forgets =>
    have released : Releases id s ((u.deleteIntents id).removeOutbox id) :=
      (frame_forgets forgets).releases releases_deleteIntents
    refine backed.keep ?_ (fun named operation held => (released.carries.mp held).2) ?_
      (persists_of_same released.inbox) (origin_same released.inbox)
    · intro row listed
      rw [regroups_forgets forgets] at listed
      exact listed
    intro row listed operation held kind
    refine released.carries.mpr ⟨?_, held⟩
    rintro rfl
    have same := sound.linked.carried_once carried held
    rw [spared operation reason same rfl kind] at lasting
    cases lasting

theorem Backed.unrecorded (backed : Backed e.user s) (sound : Sound e.user s)
    (ready : AtCursor s event) (other : event.sender ≠ e.user) :
    ∀ row ∈ s.authenticatedHistory, row.messageId ≠ event.id := by
  intro row listed same
  obtain ⟨bytes, state, encodes, place⟩ := ready.held
  cases backed.rows row listed with
  | sent operation carries _ _ _ =>
    rw [same] at carries
    have own := backed.own event.id operation carries _ place rfl
    exact other (congrArg Event.sender (event_eq_of_encode encodes own))
  | settled found present named _ _ done =>
    obtain rfl := sound.ordered.row_eq_of_id present place (named.trans same)
    have unsettled := Ordered.unsettled_at_cursor sound.ordered ready place
    change state.isSettled = true at done
    rw [unsettled] at done
    cases done

theorem finishes_rest (finishes : Finishes e u event state t) :
    t.authenticatedHistory = u.authenticatedHistory ∧
      t.deliveryInbox = (u.setInboxState event.id state).deliveryInbox ∧
      ∀ id operation, Carries t id (.appendRoomOperation operation) ↔
        Carries u id (.appendRoomOperation operation) := by
  obtain ⟨inbox, -, -, history, -⟩ := finishes_tables finishes
  refine ⟨history, inbox, fun id operation => ?_⟩
  exact (carries_journaled finishes.2 (fun _ same => by cases same) id operation).trans
    (Carries.congr rfl)

/-- The row of an own attempt comes to stand for its applied event. -/
theorem Backed.place (backed : Backed e.user s) (sound : Sound e.user s)
    (ready : AtCursor s event) (persists : Persists s t)
    (attempt : Entry s event.id (.appendRoomOperation event.operation))
    (history : t.authenticatedHistory = (s.setHistorySequence event.id
      (event.operation.parent.toNat + 1)).authenticatedHistory)
    (inbox : t.deliveryInbox = (s.setInboxState event.id .applied).deliveryInbox)
    (carries : ∀ id operation, Carries t id (.appendRoomOperation operation) ↔
      id ≠ event.id ∧ Carries s id (.appendRoomOperation operation)) : Backed e.user t := by
  obtain ⟨bytes, old, encodes, place⟩ := ready.held
  refine ⟨fun row listed => ?_, fun id operation held found listed named => ?_⟩
  · rw [history] at listed
    obtain ⟨before, present, rfl⟩ := List.mem_map.mp listed
    by_cases this : before.messageId = event.id
    · rw [if_pos this]
      cases backed.rows before present with
      | sent operation held kind room next =>
        rw [this] at held
        obtain rfl := Request.appendRoomOperation.inj (sound.linked.carried_once held
          (sound.linked.carries_of_entry attempt))
        refine .settled (rowOf event bytes .applied) ?_ this.symm room rfl rfl
        rw [inbox]
        exact List.mem_map.mpr ⟨_, place, if_pos rfl⟩
      | settled found listed named room next done =>
        obtain rfl := sound.ordered.row_eq_of_id listed place (named.trans this)
        have unsettled := Ordered.unsettled_at_cursor sound.ordered ready place
        change old.isSettled = true at done
        rw [unsettled] at done
        cases done
    · rw [if_neg this]
      exact (backed.rows before present).mono
        (fun operation held _ => (carries _ operation).mpr ⟨this, held⟩) persists
  · obtain ⟨row, present, same, record⟩ := origin_setInboxState inbox rfl found listed
    rw [← record]
    exact backed.own id operation ((carries id operation).mp held).2 row present (same.trans named)

theorem Backed.record (backed : Backed e.user s) (sound : Sound e.user s) {plaintext : Bytes}
    (ready : AtCursor s event) (persists : Persists s t) (other : event.sender ≠ e.user)
    (history : t.authenticatedHistory = (s.recordPlaintext ⟨event.id, event.operation.room,
      event.operation.parent.toNat + 1, event.sender, plaintext⟩).authenticatedHistory)
    (inbox : t.deliveryInbox = (s.setInboxState event.id .applied).deliveryInbox)
    (carries : ∀ id operation, Carries t id (.appendRoomOperation operation) ↔
      Carries s id (.appendRoomOperation operation)) : Backed e.user t := by
  obtain ⟨bytes, old, encodes, place⟩ := ready.held
  rw [recordPlaintext_new (backed.unrecorded sound ready other)] at history
  refine ⟨fun row listed => ?_, fun id operation held found listed named => ?_⟩
  · rw [history] at listed
    rcases List.mem_append.mp listed with present | single
    · exact (backed.rows row present).mono (fun operation held _ => (carries _ operation).mpr held)
        persists
    · obtain rfl := List.mem_singleton.mp single
      refine .settled (rowOf event bytes .applied) ?_ rfl rfl rfl rfl
      rw [inbox]
      exact List.mem_map.mpr ⟨_, place, if_pos rfl⟩
  · obtain ⟨row, present, same, record⟩ := origin_setInboxState inbox rfl found listed
    rw [← record]
    exact backed.own id operation ((carries id operation).mp held) row present (same.trans named)

theorem setInboxState_congr (same : u.deliveryInbox = s.deliveryInbox) :
    (u.setInboxState id state).deliveryInbox = (s.setInboxState id state).deliveryInbox := by
  unfold Store.setInboxState
  rw [same]

theorem Backed.settles (backed : Backed e.user s) (sound : Sound e.user s)
    (ready : AtCursor s event) (settles : Settles e s event t) : Backed e.user t := by
  have turns : Persists s t ∧ ∀ room, Turns (fun _ _ => False) s t room :=
    turns_of_settles sound.ordered ready settles
  have stayed : ∀ {u : Store mls} {state : ProcessingState}, Finishes e u event state t →
      u.authenticatedHistory = s.authenticatedHistory → Frame s u → Backed e.user t := by
    intro u state finishes same frame
    obtain ⟨history, inbox, carries⟩ := finishes_rest finishes
    have appends : ∀ id operation, Carries t id (.appendRoomOperation operation) ↔
        Carries s id (.appendRoomOperation operation) := fun id operation =>
      (carries id operation).trans (Carries.congr frame.outbox)
    refine backed.keep ?_ (fun id operation => (appends id operation).mp)
      (fun row _ operation held _ => (appends _ operation).mpr held) turns.1
      (origin_setInboxState inbox frame.inbox)
    intro row listed
    rw [history, same] at listed
    exact listed
  cases settles with
  | apply applies finishes =>
    cases applies with
    | @own next mine attempt merges =>
      obtain ⟨history, inbox, carries⟩ := finishes_rest finishes
      have merged := merges_own merges
      refine backed.place sound ready turns.1 attempt ?_ ?_ fun id operation => ?_
      · rw [history]
        change List.map _ next.authenticatedHistory = List.map _ s.authenticatedHistory
        rw [merged.2]
      · exact inbox.trans (setInboxState_congr merged.1.inbox)
      have removed : Carries (next.removeOutbox event.id) id (.appendRoomOperation operation) ↔
          id ≠ event.id ∧ Carries next id (.appendRoomOperation operation) :=
        carries_removeOutbox
      refine (carries id operation).trans (Iff.trans (Carries.congr rfl) (removed.trans ?_))
      exact and_congr_right fun _ => Carries.congr merged.1.outbox
    | @message plaintext next other processes =>
      obtain ⟨history, inbox, carries⟩ := finishes_rest finishes
      have frame := (frame_processes processes)
      have same : next.authenticatedHistory = s.authenticatedHistory := by
        rw [regroups_processes processes]
      have recorded : Frame s (next.recordPlaintext ⟨event.id, event.operation.room,
          event.operation.parent.toNat + 1, event.sender, plaintext⟩) :=
        frame.trans frame_recordPlaintext
      exact backed.record sound ready turns.1 other (history.trans (recordPlaintext_congr same))
        (inbox.trans (setInboxState_congr recorded.inbox)) fun id operation =>
          (carries id operation).trans (Carries.congr recorded.outbox)
    | commit other processes =>
      exact stayed finishes (by rw [regroups_processes processes]) (frame_processes processes)
  | block _ =>
    refine backed.keep (fun _ listed => listed) (fun _ _ held => held) (fun _ _ _ held _ => held)
      turns.1 (origin_setInboxState rfl rfl)
  | reject _ _ finishes => exact stayed finishes rfl (Frame.refl s)

theorem Backed.own_attempt (backed : Backed user s) {u v : Store mls} (unused : ¬Taken s id)
    (frame : Frame s u) (journals : Journals u id request v) :
    ∀ named operation, Carries v named (.appendRoomOperation operation) →
      ∀ found ∈ s.deliveryInbox, found.eventId = named →
        encodeMessage (⟨named, user, operation⟩ : Event) = .ok found.record := by
  intro named operation held found listed same
  rcases (journals_carries journals).mp held with old | ⟨rfl, -⟩
  · exact backed.own named operation ((Carries.congr frame.outbox).mp old) found listed same
  · exact absurd (.inl ⟨found, listed, same⟩) unused

theorem Backed.attempt (backed : Backed e.user s) (sound : Sound e.user s) {row : IntentRow}
    {u v : Store mls} (unused : ¬Taken s id) (group : (s.mlsGroups row.room).isSome)
    (builds : Builds e s row id (cursorOf s row.room) request u)
    (journals : Journals u id request v) : Backed e.user (v.setAttempt row.id id) := by
  have frame := frame_builds builds
  have rest := journals_rest journals
  have inbox : (v.setAttempt row.id id).deliveryInbox = s.deliveryInbox := by
    rw [rest]
    exact frame.inbox
  have carries : ∀ named operation, Carries s named (.appendRoomOperation operation) →
      Carries v named (.appendRoomOperation operation) := fun named operation held =>
    (journals_carries journals).mpr (.inl ((Carries.congr frame.outbox).mpr held))
  have kept : ∀ found ∈ s.authenticatedHistory, Backs (v.setAttempt row.id id) found :=
    fun found listed => (backed.rows found listed).mono (fun operation held _ => carries _ operation held)
      (persists_of_same inbox)
  refine ⟨fun found listed => ?_, ?_⟩
  · have listed' : found ∈ u.authenticatedHistory := by
      rw [rest] at listed
      exact listed
    cases builds with
    | reservation _ _ => exact kept found listed'
    | addition _ _ adds =>
      rw [regroups_adds adds] at listed'
      exact kept found listed'
    | @message plaintext body epoch next _ _ _ bound encrypts =>
      have same : next.authenticatedHistory = s.authenticatedHistory := by
        rw [regroups_encrypts encrypts]
      rw [recordPlaintext_new fun old present same' => unused (.inr ⟨old, by rw [← same]; exact present,
        same'⟩)] at listed'
      rcases List.mem_append.mp listed' with old | single
      · rw [same] at old
        exact kept found old
      obtain rfl := List.mem_singleton.mp single
      refine .sent _ ((journals_carries journals).mpr (.inr ⟨rfl, rfl⟩)) rfl rfl ?_
      have small := sound.ordered.bounded row.room _ (sound.ordered.cursor_of_group group)
      change (UInt64.ofNat (cursorOf s row.room)).toNat + 1 = cursorOf s row.room + 1
      rw [UInt64.toNat_ofNat_of_lt']
      exact lt_of_le_of_lt small (by decide)
  · intro named operation held found listed same
    rw [inbox] at listed
    exact backed.own_attempt unused frame journals named operation held found listed same

/-- A page names the identifiers of appends only for the appends' own events. -/
def NamesOwn (user : UserId) (known : MessageId × Request → Response → Prop) (s : Store mls) : Prop :=
  ∀ query room after events more, known (query, .fetchRoomEvents room after)
    (.roomEvents room after events more) → ∀ event ∈ events, ∀ operation,
      Carries s event.id (.appendRoomOperation operation) → event = ⟨event.id, user, operation⟩

def Spares (known : MessageId × Request → Response → Prop) : Prop :=
  ∀ id operation reason, known (id, .appendRoomOperation operation) (.rejected reason) →
    operation.contentType = .application → isPassing reason = true

theorem Backed.commits {asked : UserCommand → Prop} {known : MessageId × Request → Response → Prop}
    {fresh : MessageId → Prop} (backed : Backed e.user s) (sound : Sound e.user s)
    (unused : ∀ id, fresh id → ¬Taken s id) (names : NamesOwn e.user known s) (spares : Spares known)
    (commits : Commits e asked known fresh s t) : Backed e.user t := by
  cases commits with
  | contact _ _ =>
    refine backed.congr ?_ frame_insertContact.inbox fun _ _ =>
      Carries.congr frame_insertContact.outbox
    unfold Store.insertContact
    split
    · rfl
    · rfl
  | command _ orders _ journals =>
    have rest := journals_rest journals
    refine backed.congr (by rw [rest]) (by rw [rest]) fun id operation => ?_
    refine (carries_journaled journals ?_ id operation).trans (Carries.congr rfl)
    rintro other rfl
    cases orders
  | intent _ _ inserted =>
    obtain ⟨-, rfl⟩ := insertIntent_rest inserted
    exact backed.congr rfl rfl fun _ _ => Carries.congr rfl
  | name named =>
    rw [upsertRoom_rest named]
    exact backed.congr rfl rfl fun _ _ => Carries.congr rfl
  | @complete id request response _ entry answer completes =>
    refine backed.completes sound (sound.linked.carries_of_entry entry) ?_ completes
    rintro operation reason rfl rfl kind
    exact spares id operation reason answer kind
  | @receive query room after events more event _ group answer listed place above next stores =>
    obtain ⟨bytes, -, encodes, -, rfl⟩ := stores_cases stores
    refine ⟨fun row present => ?_, fun id operation held found member named => ?_⟩
    · exact (backed.rows row present).mono (fun _ held _ => held)
        (persists_of_subset fun _ old => List.mem_append_left _ old)
    rcases List.mem_append.mp member with old | single
    · exact backed.own id operation held found old named
    · obtain rfl := List.mem_singleton.mp single
      obtain rfl : event.id = id := named
      rw [← names query room after events more answer event listed operation held]
      exact encodes
  | @attempt row id request u v planned idle new group clear builds journals =>
    exact backed.attempt sound (unused id new) group builds journals
  | welcomes _ _ _ => exact backed.congr rfl rfl fun _ _ => Carries.congr rfl
  | suspend _ _ => exact backed.congr rfl rfl fun _ _ => Carries.congr rfl
  | join _ _ joins =>
    obtain ⟨u, w, -, -, placed, journals⟩ := joins_rest joins
    have rest := journals_rest journals
    refine backed.congr (by rw [rest, placed]) (by rw [rest, placed]) fun id operation => ?_
    refine (carries_journaled journals (fun _ equal => by cases equal) id operation).trans ?_
    exact Carries.congr (by rw [placed])
  | settle ready settles => exact backed.settles sound ready settles

end Steps

section Runs

variable {c : Process mls}

/-- Identifiers are drawn new, pages name the client's appends only for their own events, and no
message of the client is refused for good. -/
structure Orderly (e : Engine mls) (c : Process mls) (move : Move mls) (d : Process mls) : Prop where
  drawn : ∀ id, move = .draw (some id) → ¬Taken c.store id
  names : NamesOwn e.user d.known d.store
  spares : Spares d.known

theorem backed_run (run : ReachableBy e (Orderly e) c) :
    (∃ fresh, Governed e Taken fresh c) ∧ NamesOwn e.user c.known c.store ∧ Spares c.known ∧
      Backed e.user c.store := by
  induction run with
  | off =>
    refine ⟨⟨_, governed_off (fun _ => False) fun _ never => never.elim⟩, ?_, ?_, ?_, ?_⟩
    · intro _ _ _ _ _ answered
      cases answered
    · intro _ _ _ answered
      cases answered
    · intro row listed
      cases listed
    · intro _ _ _ found listed
      cases listed
  | step _ taken met ih =>
    obtain ⟨⟨fresh, governed⟩, names, spares, backed⟩ := ih
    obtain ⟨governed', moved⟩ := governed_step governed met.drawn taken
    refine ⟨⟨_, governed'⟩, met.names, met.spares, ?_⟩
    rcases moved with same | commits
    · rw [same]
      exact backed
    · exact backed.commits governed.sound governed.unused names spares commits

/-- In every state of an orderly run an own history row has its append in the outbox or its event
in the inbox, and rows of a room have distinct places. -/
theorem own_history_backed (run : ReachableBy e (Orderly e) c) :
    (∀ row ∈ c.store.authenticatedHistory, row.author = e.user →
      (∃ operation, Carries c.store row.messageId (.appendRoomOperation operation)) ∨
      ∃ found ∈ c.store.deliveryInbox, found.eventId = row.messageId) ∧
    ∀ row ∈ c.store.authenticatedHistory, ∀ other ∈ c.store.authenticatedHistory,
      row.room = other.room → row.sequence = other.sequence → row = other := by
  obtain ⟨⟨fresh, governed⟩, -, -, backed⟩ := backed_run run
  refine ⟨fun row listed _ => ?_, fun row listed other listed' room place => ?_⟩
  · cases backed.rows row listed with
    | sent operation carries _ _ _ => exact .inl ⟨operation, carries⟩
    | settled found present named _ _ _ => exact .inr ⟨found, present, named⟩
  · exact backed.row_eq_of_place governed.sound (Reachable.attributed run.reachable) listed listed'
      room place

end Runs

section Sample

/-- Steps that are orderly because the relay hands out no events and refuses nothing. -/
def isOrderly (c : Process mls) (move : Move mls) (d : Process mls) : Bool :=
  (match move with
    | .draw (some id) => !(c.store.deliveryInbox.any fun row => decide (row.eventId = id)) &&
        !(c.store.authenticatedHistory.any fun row => decide (row.messageId = id))
    | _ => true) &&
  d.answers.all fun answer =>
    match answer.2 with
    | .roomEvents _ _ _ _ | .rejected _ => false
    | _ => true

theorem orderly_of_isOrderly (c : Process mls) (move : Move mls) (d : Process mls)
    (passes : isOrderly c move d = true) : Orderly e c move d := by
  obtain ⟨drawn, quiet⟩ := Bool.and_eq_true_iff.mp passes
  refine ⟨?_, ?_, ?_⟩
  · rintro id rfl taken
    simp only [Bool.and_eq_true, Bool.not_eq_true', List.any_eq_false, decide_eq_true_eq] at drawn
    rcases taken with ⟨row, present, named⟩ | ⟨row, present, named⟩
    · exact drawn.1 row present named
    · exact drawn.2 row present named
  · intro query room after events more answered
    cases List.all_eq_true.mp quiet _ answered
  · intro id operation reason answered
    cases List.all_eq_true.mp quiet _ answered

def planning : Process Cleartext.mls :=
  play (clearEngine (sampleUser 1)) calm (.command (.sendRoomMessage (sampleRoom 9) [5]))
    [sampleId 4] [] founded

/-- The message is sent as 7; answers that are not given are lost. -/
def sending (answers : List Response) : Process Cleartext.mls :=
  play (clearEngine (sampleUser 1)) calm (.drive 9)
    [sampleId 5, sampleId 6, sampleId 7, sampleId 8, sampleId 9]
    ([.welcomes 0 [] false, .syncIndex [⟨sampleRoom 9, "a", 0⟩] false] ++ answers) planning

theorem own_history_backed_sending :
    (∃ row ∈ (sending []).store.authenticatedHistory, row.author = sampleUser 1) ∧
    ∀ row ∈ (sending []).store.authenticatedHistory, row.author = sampleUser 1 →
      (∃ operation, Carries (sending []).store row.messageId (.appendRoomOperation operation)) ∨
      ∃ found ∈ (sending []).store.deliveryInbox, found.eventId = row.messageId := by
  let e := clearEngine (sampleUser 1)
  have sound := @orderly_of_isOrderly _ e
  have awake : ReachableBy e (Orderly e) awake := ReachableBy.off.play sound _ _ _ (by decide +kernel)
  have asking : ReachableBy e (Orderly e) asking := awake.play sound _ _ _ (by decide +kernel)
  have founded : ReachableBy e (Orderly e) founded := asking.play sound _ _ _ (by decide +kernel)
  have planning : ReachableBy e (Orderly e) planning := founded.play sound _ _ _ (by decide +kernel)
  have sending : ReachableBy e (Orderly e) (sending []) := planning.play sound _ _ _ (by decide +kernel)
  refine ⟨⟨⟨sampleId 7, sampleRoom 9, 1, sampleUser 1, [5]⟩, by decide +kernel, rfl⟩, ?_⟩
  exact (own_history_backed sending).1

/-- The message is refused for good, and user 1 sends another one, as 14. -/
def refused : Process Cleartext.mls :=
  let e := clearEngine (sampleUser 1)
  let c := sending [.rejected .unauthorized, .welcomes 0 [] false,
    .syncIndex [⟨sampleRoom 9, "a", 0⟩] false]
  let c := play e calm (.command (.sendRoomMessage (sampleRoom 9) [6])) [sampleId 11] [] c
  play e calm (.drive 9) [sampleId 12, sampleId 13, sampleId 14]
    [.welcomes 0 [] false, .syncIndex [⟨sampleRoom 9, "a", 0⟩] false] c

theorem reachable_refused : Reachable (clearEngine (sampleUser 1)) refused :=
  (((reachable_founded.play _ _ _).play _ _ _).play _ _ _).play _ _ _

/-- The refused message stays in the history without append or event, and shares its place with
the next one. -/
theorem refused_message_stays : ∃ (c : Process Cleartext.mls) (row other : HistoryRow),
    Reachable (clearEngine (sampleUser 1)) c ∧ row ∈ c.store.authenticatedHistory ∧
    row.author = sampleUser 1 ∧
    (∀ operation, ¬Carries c.store row.messageId (.appendRoomOperation operation)) ∧
    (∀ found ∈ c.store.deliveryInbox, found.eventId ≠ row.messageId) ∧
    other ∈ c.store.authenticatedHistory ∧ other ≠ row ∧ other.room = row.room ∧
    other.sequence = row.sequence := by
  refine ⟨refused, ⟨sampleId 7, sampleRoom 9, 1, sampleUser 1, [5]⟩,
    ⟨sampleId 14, sampleRoom 9, 1, sampleUser 1, [6]⟩, reachable_refused, by decide +kernel, rfl, ?_,
    by decide +kernel, by decide +kernel, by decide +kernel, rfl, rfl⟩
  rintro operation ⟨row, present, named, -⟩
  have absent : ∀ row ∈ refused.store.outbox, row.requestId ≠ sampleId 7 := by decide +kernel
  exact absent row present named

end Sample

end Grotto.Client.Drafts
