/- GID: Grotto/Client/Consistency
   digest: The invariant of the client's tables and the changes that keep it. -/

import Grotto.Client.Frames

set_option autoImplicit false

namespace Grotto.Client.Consistency

open Base.Keyed
open Protocol.Records Protocol.Wire Protocol.Sizes
open Library Tables
open Delivery Changes Frames

variable {mls : Mls} {s t : Store mls}

/-- Rooms, cursors and inbox: rows up to the cursor are settled, the rows above it are not and
follow one another. -/
structure Ordered (s : Store mls) : Prop where
  recorded : Recorded s
  ids : (s.deliveryInbox.map InboxRow.eventId).Nodup
  places : (s.deliveryInbox.map fun row => (row.room, row.sequence)).Nodup
  bounded : ∀ room n, s.deliveryCursors room = some n → n ≤ i64Max
  placed : ∀ room, (s.mlsGroups room).isSome = (s.deliveryCursors room).isSome
  settled : ∀ row ∈ s.deliveryInbox, ∃ n, s.deliveryCursors row.room = some n ∧
    (row.state.isSettled = true ↔ row.sequence ≤ n)
  consecutive : ∀ row ∈ s.deliveryInbox, ∀ n, s.deliveryCursors row.room = some n →
    n + 1 < row.sequence →
    ∃ before ∈ s.deliveryInbox, before.room = row.room ∧ before.sequence + 1 = row.sequence

def Serves (row : IntentRow) : Request → Prop
  | .reserveKeyPackage recipient => row.target = some recipient
  | .appendRoomOperation operation => operation.room = row.room
  | _ => False

/-- Intents and outbox: an intent's attempt is in the outbox, and an append there is the attempt
of its room's intent. -/
structure Linked (s : Store mls) : Prop where
  requests : (s.outbox.map OutboxRow.requestId).Nodup
  journaled : ∀ row ∈ s.outbox, ∃ request,
    encodeMessage (ClientMessage.delivery row.requestId request) = .ok row.message
  intents : (s.deliveryIntents.map IntentRow.id).Nodup
  rooms : (s.deliveryIntents.map IntentRow.room).Nodup
  attempted : ∀ row ∈ s.deliveryIntents, ∀ id, row.attempt = some id →
    ∃ request, Carries s id request ∧ Serves row request
  planned : ∀ id operation, Carries s id (.appendRoomOperation operation) →
    ∃ row ∈ s.deliveryIntents, row.attempt = some id ∧ row.room = operation.room

/-- An append in the outbox stands at its room's cursor, unless its identifier names another
event of the inbox. -/
def Anchored (user : UserId) (s : Store mls) : Prop :=
  ∀ id operation, Carries s id (.appendRoomOperation operation) →
    s.deliveryCursors operation.room = some operation.parent.toNat ∨
    ∃ row ∈ s.deliveryInbox, row.eventId = id ∧
      encodeMessage (⟨id, user, operation⟩ : Event) ≠ .ok row.record

structure Sound (user : UserId) (s : Store mls) : Prop where
  ordered : Ordered s
  linked : Linked s
  anchored : Anchored user s

variable {row : IntentRow}

section Rows

variable {id : MessageId}

theorem Ordered.row_eq_of_id (ordered : Ordered s) {row other : InboxRow}
    (left : row ∈ s.deliveryInbox) (right : other ∈ s.deliveryInbox)
    (same : row.eventId = other.eventId) : row = other :=
  List.inj_on_of_nodup_map ordered.ids left right same

theorem Ordered.row_eq_of_place (ordered : Ordered s) {row other : InboxRow}
    (left : row ∈ s.deliveryInbox) (right : other ∈ s.deliveryInbox)
    (room : row.room = other.room) (sequence : row.sequence = other.sequence) : row = other :=
  List.inj_on_of_nodup_map ordered.places left right (Prod.ext room sequence)

theorem Ordered.cursor_of_group (ordered : Ordered s) {room : RoomId}
    (group : (s.mlsGroups room).isSome) : s.deliveryCursors room = some (cursorOf s room) := by
  rw [ordered.placed room] at group
  obtain ⟨n, found⟩ := Option.isSome_iff_exists.mp group
  unfold cursorOf
  rw [found]
  rfl

theorem Linked.carried_once (linked : Linked s) {request other : Request}
    (left : Carries s id request) (right : Carries s id other) : request = other := by
  obtain ⟨row, present, named, encodes⟩ := left
  obtain ⟨found, listed, same, read⟩ := right
  obtain rfl := List.inj_on_of_nodup_map linked.requests present listed (named.trans same.symm)
  exact delivery_eq_of_encode encodes read

theorem Linked.carries_of_entry (linked : Linked s) {request : Request}
    (entry : Entry s id request) : Carries s id request := by
  obtain ⟨row, present, rfl, decodes⟩ := entry
  obtain ⟨journaled, encodes⟩ := linked.journaled row present
  have same := eq_of_decodeMessage encodes decodes
  injection same with _ equal
  exact ⟨row, present, rfl, by rw [equal]; exact encodes⟩

theorem Linked.serves (linked : Linked s) {request : Request}
    (present : row ∈ s.deliveryIntents) (waiting : row.attempt = some id)
    (carries : Carries s id request) : Serves row request := by
  obtain ⟨held, carried, serves⟩ := linked.attempted row present id waiting
  rw [linked.carried_once carries carried]
  exact serves

theorem Linked.append_once (linked : Linked s) {id other : MessageId} {left right : Append}
    (first : Carries s id (.appendRoomOperation left))
    (second : Carries s other (.appendRoomOperation right)) (room : left.room = right.room) :
    id = other ∧ left = right := by
  obtain ⟨row, present, waiting, here⟩ := linked.planned id left first
  obtain ⟨found, listed, pending, there⟩ := linked.planned other right second
  obtain rfl := List.inj_on_of_nodup_map linked.rooms present listed
    ((here.trans room).trans there.symm)
  obtain rfl := Option.some.inj (waiting.symm.trans pending)
  exact ⟨rfl, Request.appendRoomOperation.inj (linked.carried_once first second)⟩

end Rows

variable {user : UserId}

section Unchanged

theorem Ordered.congr (ordered : Ordered s) (cursors : t.deliveryCursors = s.deliveryCursors)
    (inbox : t.deliveryInbox = s.deliveryInbox)
    (groups : ∀ room, (t.mlsGroups room).isSome = (s.mlsGroups room).isSome) : Ordered t where
  recorded := by unfold Recorded; rw [inbox]; exact ordered.recorded
  ids := by rw [inbox]; exact ordered.ids
  places := by rw [inbox]; exact ordered.places
  bounded := by rw [cursors]; exact ordered.bounded
  placed room := by rw [cursors, groups room]; exact ordered.placed room
  settled := by rw [inbox, cursors]; exact ordered.settled
  consecutive := by rw [inbox, cursors]; exact ordered.consecutive

theorem Linked.congr (linked : Linked s) (intents : t.deliveryIntents = s.deliveryIntents)
    (outbox : t.outbox = s.outbox) : Linked t where
  requests := by rw [outbox]; exact linked.requests
  journaled := by rw [outbox]; exact linked.journaled
  intents := by rw [intents]; exact linked.intents
  rooms := by rw [intents]; exact linked.rooms
  attempted row present id waiting := by
    rw [intents] at present
    obtain ⟨request, carries, serves⟩ := linked.attempted row present id waiting
    exact ⟨request, (Carries.congr outbox).mpr carries, serves⟩
  planned id operation carries := by
    rw [intents]
    exact linked.planned id operation ((Carries.congr outbox).mp carries)

theorem Anchored.mono (anchored : Anchored user s)
    (fewer : ∀ id operation, Carries t id (.appendRoomOperation operation) →
      Carries s id (.appendRoomOperation operation))
    (cursors : t.deliveryCursors = s.deliveryCursors)
    (inbox : ∀ row ∈ s.deliveryInbox, row ∈ t.deliveryInbox) : Anchored user t := by
  intro id operation carries
  rw [cursors]
  rcases anchored id operation (fewer id operation carries) with here | ⟨row, present, named, apart⟩
  · exact .inl here
  · exact .inr ⟨row, inbox row present, named, apart⟩

theorem Sound.frame (sound : Sound user s) (frame : Frame s t) : Sound user t where
  ordered := sound.ordered.congr frame.cursors frame.inbox frame.groups
  linked := sound.linked.congr frame.intents frame.outbox
  anchored := sound.anchored.mono (fun _ _ => (Carries.congr frame.outbox).mp) frame.cursors
    fun row present => by rw [frame.inbox]; exact present

end Unchanged

section Requests

variable {id : MessageId} {request : Request}

theorem Linked.journal_rows (linked : Linked s) (journals : Journals s id request t) :
    (t.outbox.map OutboxRow.requestId).Nodup ∧ ∀ row ∈ t.outbox, ∃ request,
      encodeMessage (ClientMessage.delivery row.requestId request) = .ok row.message := by
  rcases journals_cases journals with ⟨rfl, -⟩ | ⟨row, rfl, missing, encodes, rfl⟩
  · exact ⟨linked.requests, linked.journaled⟩
  constructor
  · refine nodup_map_append linked.requests fun found present same => ?_
    exact List.find?_eq_none.mp missing found present (decide_eq_true same)
  intro found present
  rcases List.mem_append.mp present with old | new
  · exact linked.journaled found old
  · obtain rfl := List.mem_singleton.mp new
    exact ⟨request, encodes⟩

theorem Sound.journal (sound : Sound user s) (journals : Journals s id request t)
    (other : ∀ operation, request ≠ .appendRoomOperation operation) : Sound user t := by
  have rest := journals_rest journals
  have fewer : ∀ named operation, Carries t named (.appendRoomOperation operation) →
      Carries s named (.appendRoomOperation operation) := by
    intro named operation carries
    rcases (journals_carries journals).mp carries with held | ⟨-, same⟩
    · exact held
    · exact absurd same.symm (other operation)
  obtain ⟨requests, journaled⟩ := sound.linked.journal_rows journals
  have intents : t.deliveryIntents = s.deliveryIntents := by rw [rest]
  have inbox : t.deliveryInbox = s.deliveryInbox := by rw [rest]
  have cursors : t.deliveryCursors = s.deliveryCursors := by rw [rest]
  refine ⟨sound.ordered.congr cursors inbox fun room => by rw [rest], ?_, ?_⟩
  · refine ⟨requests, journaled, ?_, ?_, ?_, ?_⟩
    · rw [intents]
      exact sound.linked.intents
    · rw [intents]
      exact sound.linked.rooms
    · intro row present attempt waiting
      rw [intents] at present
      obtain ⟨held, carries, serves⟩ := sound.linked.attempted row present attempt waiting
      exact ⟨held, (journals_carries journals).mpr (.inl carries), serves⟩
    · intro named operation carries
      rw [intents]
      exact sound.linked.planned named operation (fewer named operation carries)
  · exact sound.anchored.mono fewer cursors fun row present => by rw [inbox]; exact present

theorem Sound.plan (sound : Sound user s) (idle : row.attempt = none)
    (inserted : s.insertIntent row = .ok t) : Sound user t := by
  obtain ⟨new, rfl⟩ := insertIntent_rest inserted
  refine ⟨sound.ordered.congr rfl rfl fun _ => rfl, ?_, ?_⟩
  · refine ⟨sound.linked.requests, sound.linked.journaled, ?_, ?_, ?_, ?_⟩
    · exact nodup_map_append sound.linked.intents fun found present => (new found present).1
    · exact nodup_map_append sound.linked.rooms fun found present => (new found present).2
    · intro found present attempt waiting
      rcases List.mem_append.mp present with old | added
      · exact sound.linked.attempted found old attempt waiting
      · obtain rfl := List.mem_singleton.mp added
        rw [idle] at waiting
        cases waiting
    · intro named operation carries
      obtain ⟨found, present, rest⟩ := sound.linked.planned named operation carries
      exact ⟨found, List.mem_append_left _ present, rest⟩
  · exact sound.anchored.mono (fun _ _ carries => carries) rfl fun _ present => present

theorem Sound.release (sound : Sound user s) (releases : Releases id s t) : Sound user t := by
  refine ⟨sound.ordered.congr releases.cursors releases.inbox releases.groups, ?_, ?_⟩
  · refine ⟨?_, ?_, sound.linked.intents.sublist releases.ids,
      sound.linked.rooms.sublist releases.rooms, ?_, ?_⟩
    · rw [releases.outbox]
      exact sound.linked.requests.sublist (List.filter_sublist.map _)
    · rw [releases.outbox]
      intro row present
      exact sound.linked.journaled row (List.mem_filter.mp present).1
    · intro row present attempt waiting
      rcases releases.origin row present with ⟨held, apart⟩ | idle
      · obtain ⟨request, carries, serves⟩ := sound.linked.attempted row held attempt waiting
        have distinct : attempt ≠ id := fun same => apart (by rw [waiting, same])
        exact ⟨request, releases.carries.mpr ⟨distinct, carries⟩, serves⟩
      · rw [idle] at waiting
        cases waiting
    · intro named operation carries
      obtain ⟨apart, held⟩ := releases.carries.mp carries
      obtain ⟨row, present, waiting, room⟩ := sound.linked.planned named operation held
      refine ⟨row, releases.kept row present ?_, waiting, room⟩
      rw [waiting]
      exact fun same => apart (Option.some.inj same)
  · exact sound.anchored.mono (fun _ _ carries => (releases.carries.mp carries).2) releases.cursors
      fun row present => by rw [releases.inbox]; exact present

/-- An attempt is journaled and noted in the intent it serves. An append stands at the cursor. -/
theorem Sound.attempt (sound : Sound user s) (present : row ∈ s.deliveryIntents)
    (idle : row.attempt = none) (serves : Serves row request) (journals : Journals s id request t)
    (here : ∀ operation, request = .appendRoomOperation operation →
      s.deliveryCursors operation.room = some operation.parent.toNat) :
    Sound user (t.setAttempt row.id id) := by
  have rest := journals_rest journals
  have intents : t.deliveryIntents = s.deliveryIntents := by rw [rest]
  have inbox : t.deliveryInbox = s.deliveryInbox := by rw [rest]
  have cursors : t.deliveryCursors = s.deliveryCursors := by rw [rest]
  obtain ⟨requests, journaled⟩ := sound.linked.journal_rows journals
  have noted : ∀ {β : Type} (f : IntentRow → β), (∀ found : IntentRow, ∀ attempt,
      f { found with attempt := attempt } = f found) →
      (t.setAttempt row.id id).deliveryIntents.map f = s.deliveryIntents.map f := by
    intro β f same
    change (t.deliveryIntents.map _).map f = _
    rw [intents, List.map_map]
    refine List.map_congr_left fun found _ => ?_
    simp only [Function.comp_apply]
    split
    · exact same found _
    · rfl
  have marked : { row with attempt := some id } ∈ (t.setAttempt row.id id).deliveryIntents := by
    refine List.mem_map.mpr ⟨row, by rw [intents]; exact present, ?_⟩
    rw [if_pos rfl]
  refine ⟨sound.ordered.congr cursors inbox fun room => by rw [rest]; rfl, ?_, ?_⟩
  · refine ⟨requests, journaled, ?_, ?_, ?_, ?_⟩
    · rw [noted IntentRow.id fun _ _ => rfl]
      exact sound.linked.intents
    · rw [noted IntentRow.room fun _ _ => rfl]
      exact sound.linked.rooms
    · intro found listed attempt waiting
      obtain ⟨old, held, rfl⟩ := List.mem_map.mp listed
      rw [intents] at held
      by_cases same : old.id = row.id
      · obtain rfl := List.inj_on_of_nodup_map sound.linked.intents held present same
        rw [if_pos rfl] at waiting ⊢
        obtain rfl := Option.some.inj waiting
        refine ⟨request, (journals_carries journals).mpr (.inr ⟨rfl, rfl⟩), ?_⟩
        cases request <;> exact serves
      · rw [if_neg same] at waiting ⊢
        obtain ⟨asked, carries, suits⟩ := sound.linked.attempted old held attempt waiting
        exact ⟨asked, (journals_carries journals).mpr (.inl carries), suits⟩
    · intro named operation carries
      rcases (journals_carries journals).mp carries with held | ⟨rfl, rfl⟩
      · obtain ⟨found, listed, waiting, room⟩ := sound.linked.planned named operation held
        refine ⟨found, List.mem_map.mpr ⟨found, by rw [intents]; exact listed, ?_⟩, waiting, room⟩
        rw [if_neg]
        intro same
        obtain rfl := List.inj_on_of_nodup_map sound.linked.intents listed present same
        rw [idle] at waiting
        cases waiting
      · exact ⟨_, marked, rfl, serves.symm⟩
  · intro named operation carries
    change t.deliveryCursors _ = _ ∨ ∃ row ∈ t.deliveryInbox, _
    rw [cursors, inbox]
    rcases (journals_carries journals).mp carries with held | ⟨-, asked⟩
    · exact sound.anchored named operation held
    · exact .inl (here operation asked.symm)

end Requests

variable {n : Nat} {state : ProcessingState}

section Inbox

variable {event : Event}

/-- An event that continues the inbox above the cursor is stored. -/
theorem Sound.store (sound : Sound user s) (stores : Stores s event t)
    (cursor : s.deliveryCursors event.operation.room = some n)
    (above : n ≤ event.operation.parent.toNat)
    (next : event.operation.parent.toNat = n ∨ ∃ row ∈ s.deliveryInbox,
      row.room = event.operation.room ∧ row.sequence = event.operation.parent.toNat) :
    Sound user t := by
  obtain ⟨bytes, bound, encodes, apart, rfl⟩ := stores_cases stores
  refine ⟨⟨?_, ?_, ?_, sound.ordered.bounded, sound.ordered.placed, ?_, ?_⟩, ?_, ?_⟩
  · intro row present
    rcases List.mem_append.mp present with old | new
    · exact sound.ordered.recorded row old
    · obtain rfl := List.mem_singleton.mp new
      exact ⟨event, bound, encodes, rfl⟩
  · exact nodup_map_append sound.ordered.ids fun row present => (apart row present).1
  · exact nodup_map_append sound.ordered.places fun row present => (apart row present).2
  · intro row present
    rcases List.mem_append.mp present with old | new
    · exact sound.ordered.settled row old
    obtain rfl := List.mem_singleton.mp new
    refine ⟨n, cursor, ?_⟩
    change false = true ↔ event.operation.parent.toNat + 1 ≤ n
    simp only [Bool.false_eq_true, false_iff]
    omega
  · intro row present m placed gap
    rcases List.mem_append.mp present with old | new
    · obtain ⟨before, listed, room, adjacent⟩ := sound.ordered.consecutive row old m placed gap
      exact ⟨before, List.mem_append_left _ listed, room, adjacent⟩
    obtain rfl := List.mem_singleton.mp new
    obtain rfl := Option.some.inj (cursor.symm.trans placed)
    change n + 1 < event.operation.parent.toNat + 1 at gap
    rcases next with first | ⟨before, listed, room, adjacent⟩
    · omega
    · exact ⟨before, List.mem_append_left _ listed, room, congrArg (· + 1) adjacent⟩
  · exact sound.linked.congr rfl rfl
  · exact sound.anchored.mono (fun _ _ carries => carries) rfl
      fun row present => List.mem_append_left _ present

/-- A room gets its first cursor together with its group. -/
theorem Sound.place (sound : Sound user s) {room : RoomId}
    (missing : s.deliveryCursors room = none) (bound : n ≤ i64Max)
    (cursors : t.deliveryCursors = Function.update s.deliveryCursors room (some n))
    (groups : ∀ other, (t.mlsGroups other).isSome =
      if other = room then true else (s.mlsGroups other).isSome)
    (inbox : t.deliveryInbox = s.deliveryInbox) (intents : t.deliveryIntents = s.deliveryIntents)
    (outbox : t.outbox = s.outbox) : Sound user t := by
  have elsewhere : ∀ {other : RoomId} {m : Nat}, s.deliveryCursors other = some m →
      t.deliveryCursors other = s.deliveryCursors other := by
    intro other m placed
    rw [cursors, Function.update_of_ne]
    rintro rfl
    rw [missing] at placed
    cases placed
  refine ⟨⟨?_, ?_, ?_, ?_, ?_, ?_, ?_⟩, sound.linked.congr intents outbox, ?_⟩
  · unfold Recorded
    rw [inbox]
    exact sound.ordered.recorded
  · rw [inbox]
    exact sound.ordered.ids
  · rw [inbox]
    exact sound.ordered.places
  · intro other m placed
    rw [cursors] at placed
    by_cases same : other = room
    · rw [same, Function.update_self] at placed
      rw [← Option.some.inj placed]
      exact bound
    · rw [Function.update_of_ne same] at placed
      exact sound.ordered.bounded other m placed
  · intro other
    rw [groups other, cursors]
    by_cases same : other = room
    · rw [if_pos same, same, Function.update_self]
      rfl
    · rw [if_neg same, Function.update_of_ne same]
      exact sound.ordered.placed other
  · intro row present
    rw [inbox] at present
    obtain ⟨m, placed, settled⟩ := sound.ordered.settled row present
    exact ⟨m, (elsewhere placed).trans placed, settled⟩
  · intro row present m placed gap
    rw [inbox] at present ⊢
    obtain ⟨m', held, -⟩ := sound.ordered.settled row present
    rw [elsewhere held] at placed
    exact sound.ordered.consecutive row present m placed gap
  · intro named operation carries
    rw [inbox]
    rcases sound.anchored named operation ((Carries.congr outbox).mp carries) with here | there
    · exact .inl ((elsewhere here).trans here)
    · exact .inr there

private def mark (id : MessageId) (state : ProcessingState) (row : InboxRow) : InboxRow :=
  if row.eventId = id then { row with state := state } else row

private theorem mark_fields (id : MessageId) (state : ProcessingState) (row : InboxRow) :
    (mark id state row).eventId = row.eventId ∧ (mark id state row).room = row.room ∧
      (mark id state row).sequence = row.sequence ∧ (mark id state row).record = row.record := by
  unfold mark
  split
  · exact ⟨rfl, rfl, rfl, rfl⟩
  · exact ⟨rfl, rfl, rfl, rfl⟩

/-- The event at the cursor changes its state, and the cursor passes it once it is settled. -/
theorem Ordered.mark (ordered : Ordered s) (held : Holds s event)
    (cursor : s.deliveryCursors event.operation.room = some event.operation.parent.toNat)
    (inbox : t.deliveryInbox = (s.setInboxState event.id state).deliveryInbox)
    (cursors : t.deliveryCursors = Function.update s.deliveryCursors event.operation.room (some n))
    (groups : ∀ room, (t.mlsGroups room).isSome = (s.mlsGroups room).isSome)
    (reached : if state.isSettled then n = event.operation.parent.toNat + 1 ∧ n ≤ i64Max
      else n = event.operation.parent.toNat) : Ordered t := by
  obtain ⟨bytes, old, -, place⟩ := held
  have rows : t.deliveryInbox = s.deliveryInbox.map (Consistency.mark event.id state) := inbox
  have fields := mark_fields event.id state
  have same : ∀ row ∈ s.deliveryInbox, row.eventId = event.id → row = rowOf event bytes old :=
    fun row present named => ordered.row_eq_of_id present place named
  have within : event.operation.parent.toNat ≤ i64Max := ordered.bounded _ _ cursor
  refine ⟨?_, ?_, ?_, ?_, ?_, ?_, ?_⟩
  · intro row present
    rw [rows] at present
    obtain ⟨before, listed, rfl⟩ := List.mem_map.mp present
    obtain ⟨found, bound, encodes, shape⟩ := ordered.recorded before listed
    obtain ⟨-, -, -, record⟩ := fields before
    refine ⟨found, bound, by rw [record]; exact encodes, ?_⟩
    rw [record]
    unfold Consistency.mark
    split
    · exact congrArg (fun row : InboxRow => { row with state := state }) shape
    · exact shape
  · rw [rows, List.map_map]
    exact (List.map_congr_left fun row _ => (fields row).1) ▸ ordered.ids
  · rw [rows, List.map_map]
    have kept : s.deliveryInbox.map ((fun row => (row.room, row.sequence)) ∘
        Consistency.mark event.id state) = s.deliveryInbox.map fun row => (row.room, row.sequence) :=
      List.map_congr_left fun row _ => Prod.ext (fields row).2.1 (fields row).2.2.1
    rw [kept]
    exact ordered.places
  · intro room m placed
    rw [cursors] at placed
    by_cases here : room = event.operation.room
    · rw [here, Function.update_self] at placed
      obtain rfl := Option.some.inj placed
      split at reached
      · exact reached.2
      · omega
    · rw [Function.update_of_ne here] at placed
      exact ordered.bounded room m placed
  · intro room
    rw [groups room, ordered.placed room, cursors]
    by_cases here : room = event.operation.room
    · rw [here, Function.update_self, cursor]
      rfl
    · rw [Function.update_of_ne here]
  · intro row present
    rw [rows] at present
    obtain ⟨before, listed, rfl⟩ := List.mem_map.mp present
    obtain ⟨named, room, sequence, -⟩ := fields before
    rw [room, sequence, cursors]
    by_cases here : before.room = event.operation.room
    · refine ⟨n, by rw [here, Function.update_self], ?_⟩
      by_cases this : before.eventId = event.id
      · have shape := same before listed this
        have marked : (Consistency.mark event.id state before).state = state := by
          unfold Consistency.mark
          rw [if_pos this]
        rw [marked, shape]
        change state.isSettled = true ↔ event.operation.parent.toNat + 1 ≤ n
        split at reached
        · rename_i done
          exact ⟨fun _ => by omega, fun _ => done⟩
        · rename_i undone
          exact ⟨fun done => absurd done undone, fun above => by omega⟩
      · have marked : Consistency.mark event.id state before = before := if_neg this
        obtain ⟨m, placed, settled⟩ := ordered.settled before listed
        rw [here, cursor] at placed
        obtain rfl := Option.some.inj placed
        have apart : before.sequence ≠ event.operation.parent.toNat + 1 := fun equal =>
          this (congrArg InboxRow.eventId (ordered.row_eq_of_place listed place here equal))
        rw [marked, settled]
        split at reached
        · omega
        · omega
    · have marked : Consistency.mark event.id state before = before := by
        refine if_neg fun this => here ?_
        rw [same before listed this]
        rfl
      rw [Function.update_of_ne here, marked]
      exact ordered.settled before listed
  · intro row present m placed gap
    rw [rows] at present
    obtain ⟨before, listed, rfl⟩ := List.mem_map.mp present
    obtain ⟨-, room, sequence, -⟩ := fields before
    rw [room, cursors] at placed
    rw [sequence] at gap
    obtain ⟨k, old', further⟩ : ∃ k, s.deliveryCursors before.room = some k ∧
        k + 1 < before.sequence := by
      by_cases here : before.room = event.operation.room
      · rw [here, Function.update_self] at placed
        obtain rfl := Option.some.inj placed
        refine ⟨_, by rw [here]; exact cursor, ?_⟩
        split at reached
        · omega
        · omega
      · rw [Function.update_of_ne here] at placed
        exact ⟨m, placed, gap⟩
    obtain ⟨first, present', room', adjacent⟩ :=
      ordered.consecutive before listed k old' further
    refine ⟨Consistency.mark event.id state first, ?_, ?_, ?_⟩
    · rw [rows]
      exact List.mem_map_of_mem present'
    · rw [(fields first).2.1, room, room']
    · rw [(fields first).2.2.1, sequence, adjacent]

/-- The appends of a room whose identifiers name other events of the inbox. -/
def Quiet (user : UserId) (s : Store mls) (room : RoomId) : Prop :=
  ∀ id operation, Carries s id (.appendRoomOperation operation) → operation.room = room →
    ∃ row ∈ s.deliveryInbox, row.eventId = id ∧
      encodeMessage (⟨id, user, operation⟩ : Event) ≠ .ok row.record

theorem Sound.mark (sound : Sound user s) (held : Holds s event)
    (cursor : s.deliveryCursors event.operation.room = some event.operation.parent.toNat)
    (inbox : t.deliveryInbox = (s.setInboxState event.id state).deliveryInbox)
    (cursors : t.deliveryCursors = Function.update s.deliveryCursors event.operation.room (some n))
    (groups : ∀ room, (t.mlsGroups room).isSome = (s.mlsGroups room).isSome)
    (intents : t.deliveryIntents = s.deliveryIntents) (outbox : t.outbox = s.outbox)
    (reached : if state.isSettled then n = event.operation.parent.toNat + 1 ∧ n ≤ i64Max
      else n = event.operation.parent.toNat)
    (quiet : n ≠ event.operation.parent.toNat → Quiet user s event.operation.room) :
    Sound user t := by
  refine ⟨sound.ordered.mark held cursor inbox cursors groups reached,
    sound.linked.congr intents outbox, ?_⟩
  intro id operation carries
  have carried := (Carries.congr outbox).mp carries
  have rows : t.deliveryInbox = s.deliveryInbox.map (Consistency.mark event.id state) := inbox
  have moved : ∀ row ∈ s.deliveryInbox, row.eventId = id →
      encodeMessage (⟨id, user, operation⟩ : Event) ≠ .ok row.record →
      ∃ row ∈ t.deliveryInbox, row.eventId = id ∧
        encodeMessage (⟨id, user, operation⟩ : Event) ≠ .ok row.record := by
    intro row present named apart
    obtain ⟨same, -, -, record⟩ := mark_fields event.id state row
    refine ⟨_, by rw [rows]; exact List.mem_map_of_mem present, same.trans named, ?_⟩
    rw [record]
    exact apart
  rcases sound.anchored id operation carried with here | ⟨row, present, named, apart⟩
  · by_cases room : operation.room = event.operation.room
    · by_cases stays : n = event.operation.parent.toNat
      · left
        rw [room, cursor] at here
        rw [cursors, room, Function.update_self, stays, ← Option.some.inj here]
      · obtain ⟨row, present, named, apart⟩ := quiet stays id operation carried room
        exact .inr (moved row present named apart)
    · left
      rw [cursors, Function.update_of_ne room]
      exact here
  · exact .inr (moved row present named apart)

end Inbox

section Commits

variable {e : Engine mls} {event : Event}

theorem Ordered.at_cursor (ordered : Ordered s) (ready : AtCursor s event) :
    s.deliveryCursors event.operation.room = some event.operation.parent.toNat := by
  rw [ordered.cursor_of_group ready.group, ready.next]

theorem Ordered.row_of_record (ordered : Ordered s) {row : InboxRow} (present : row ∈ s.deliveryInbox)
    (encodes : encodeMessage event = .ok row.record) : row = rowOf event row.record row.state := by
  obtain ⟨found, -, read, shape⟩ := ordered.recorded row present
  rw [event_eq_of_encode encodes read]
  exact shape

theorem quiet_of_peer (sound : Sound e.user s) (ready : AtCursor s event)
    (other : event.sender ≠ e.user) : Quiet e.user s event.operation.room := by
  intro id operation carries room
  obtain ⟨intent, planned, waiting, place⟩ := sound.linked.planned id operation carries
  have listed : ∃ row ∈ s.deliveryInbox, row.eventId = id := by
    by_contra missing
    have unresolved : isUnresolved s event.operation.room = true :=
      isUnresolved_iff.mpr ⟨intent, planned, id, waiting, place.trans room,
        carries_findOutbox carries, fun row present named => missing ⟨row, present, named⟩⟩
    rw [ready.resolved] at unresolved
    cases unresolved
  obtain ⟨row, present, named⟩ := listed
  refine ⟨row, present, named, fun own => ?_⟩
  have shape := sound.ordered.row_of_record present own
  rcases sound.anchored id operation carries with here | ⟨found, also, same, apart⟩
  · -- The own event would stand at the cursor, where the settled event stands.
    obtain ⟨bytes, state, encodes, place⟩ := ready.held
    have cursor := sound.ordered.at_cursor ready
    rw [room, cursor] at here
    have parent := Option.some.inj here
    have row_eq : row = rowOf event bytes state := by
      refine sound.ordered.row_eq_of_place present place ?_ ?_
      · rw [shape]
        exact room
      · rw [shape]
        exact congrArg (· + 1) parent.symm
    have record : row.record = bytes := by rw [row_eq]; rfl
    rw [record] at own
    exact other (congrArg Event.sender (event_eq_of_encode encodes own))
  · obtain rfl := sound.ordered.row_eq_of_id present also (named.trans same.symm)
    exact apart own

theorem Sound.finish (sound : Sound e.user s) (held : Holds s event)
    (cursor : s.deliveryCursors event.operation.room = some event.operation.parent.toNat)
    (quiet : Quiet e.user s event.operation.room) (done : state.isSettled = true)
    (finishes : Finishes e s event state t) : Sound e.user t := by
  obtain ⟨bound, journals⟩ := finishes
  refine Sound.journal ?_ journals fun _ same => by cases same
  refine sound.mark held cursor rfl rfl (fun _ => rfl) rfl rfl ?_ fun _ => quiet
  rw [if_pos done]
  exact ⟨rfl, bound⟩

theorem holds_congr (held : Holds s event) (inbox : t.deliveryInbox = s.deliveryInbox) :
    Holds t event := by
  unfold Holds
  rw [inbox]
  exact held

theorem Sound.applies (sound : Sound e.user s) (ready : AtCursor s event)
    (applies : Applies e s event t) : Sound e.user t ∧ t.deliveryInbox = s.deliveryInbox ∧
      t.deliveryCursors = s.deliveryCursors ∧ Quiet e.user t event.operation.room := by
  rcases applies_cases applies with ⟨other, frame⟩ | ⟨-, attempt, releases⟩
  · refine ⟨sound.frame frame, frame.inbox, frame.cursors, fun id operation carries => ?_⟩
    rw [frame.inbox]
    exact quiet_of_peer sound ready other id operation ((Carries.congr frame.outbox).mp carries)
  · refine ⟨sound.release releases, releases.inbox, releases.cursors, ?_⟩
    intro id operation carries room
    obtain ⟨apart, held⟩ := releases.carries.mp carries
    exact absurd (sound.linked.append_once held (sound.linked.carries_of_entry attempt) room).1 apart

theorem Sound.settles (sound : Sound e.user s) (ready : AtCursor s event)
    (settles : Settles e s event t) : Sound e.user t := by
  have cursor := sound.ordered.at_cursor ready
  cases settles with
  | apply applies finishes =>
    obtain ⟨sound', inbox, cursors, quiet⟩ := sound.applies ready applies
    exact sound'.finish (holds_congr ready.held inbox) (by rw [cursors]; exact cursor) quiet rfl
      finishes
  | block other =>
    refine sound.mark (n := event.operation.parent.toNat) ready.held cursor rfl ?_ (fun _ => rfl)
      rfl rfl ?_ fun moved => absurd rfl moved
    · rw [← cursor, Function.update_eq_self]
      rfl
    · rfl
  | reject other refuses finishes =>
    exact sound.finish ready.held cursor (quiet_of_peer sound ready other) rfl finishes

/-- The answer to an entry keeps the tables sound. -/
theorem Sound.completes (sound : Sound e.user s) {id : MessageId} {request : Request}
    {response : Response} (carries : Carries s id request)
    (completes : Completes e s id request response t) : Sound e.user t := by
  have idle : (∀ row, ¬Serves row request) → ∀ row ∈ s.deliveryIntents, row.attempt ≠ some id :=
    fun never row present waiting => never row (sound.linked.serves present waiting carries)
  cases completes with
  | @create name room _ u v founds named =>
    have named' := frame_upsertRoom named
    have unserved := idle fun _ serves => serves
    cases cursor : s.deliveryCursors room with
    | some n =>
      have group : (s.mlsGroups room).isSome := by
        rw [sound.ordered.placed room, cursor]
        rfl
      have founded : Frame s u := by
        rcases founds with ⟨_, -, rfl⟩ | ⟨_, created, -, -, rfl⟩
        · exact Frame.refl _
        · obtain ⟨old, held⟩ := Option.isSome_iff_exists.mp group
          exact frame_writeGroup held
      have frame := founded.trans named'
      have present : v.insertCursorOrIgnore room 0 = v := by
        unfold Store.insertCursorOrIgnore
        rw [frame.cursors, cursor]
        rfl
      rw [present]
      exact sound.release (frame.releases (releases_removeOutbox (by
        rw [frame.intents]
        exact unserved)))
    | none =>
      have ungrouped : s.mlsGroups room = none := by
        have same := sound.ordered.placed room
        rw [cursor] at same
        exact Option.not_isSome_iff_eq_none.mp (by rw [same]; decide)
      have created : ∃ group, u = s.writeGroup room group := by
        rcases founds with ⟨group, held, -⟩ | ⟨_, group, -, -, made⟩
        · rw [ungrouped] at held
          cases held
        · exact ⟨group, made⟩
      obtain ⟨group, rfl⟩ := created
      have missing : v.deliveryCursors room = none := named'.cursors ▸ cursor
      have placed : Sound e.user (v.insertCursorOrIgnore room 0) := by
        have inserted : v.insertCursorOrIgnore room 0 =
            { v with deliveryCursors := Function.update v.deliveryCursors room (some 0) } := by
          unfold Store.insertCursorOrIgnore
          rw [missing]
          rfl
        rw [inserted]
        refine sound.place cursor (Nat.zero_le _) ?_ (fun other => ?_) named'.inbox
          named'.intents named'.outbox
        · change Function.update v.deliveryCursors room (some 0) = _
          rw [named'.cursors]
          rfl
        refine (named'.groups other).trans ?_
        split
        · rename_i same
          rw [same, Store.writeGroup_self]
          rfl
        · rename_i apart
          rw [Store.writeGroup_of_ne s apart]
      refine placed.release (releases_removeOutbox fun row present => unserved row ?_)
      have same : (v.insertCursorOrIgnore room 0).deliveryIntents = s.deliveryIntents := by
        unfold Store.insertCursorOrIgnore
        rw [missing]
        exact named'.intents
      rw [← same]
      exact present
  | close closes =>
    refine sound.release (releases_removeOutbox (idle fun row serves => ?_))
    cases closes with
    | published _ => exact serves
    | granted => exact serves
    | acknowledged => exact serves
  | reserve _ _ _ _ =>
    exact sound.release (releases_installPackage fun row present waiting =>
      sound.linked.serves present waiting carries)
  | @accept operation t stores =>
    have cursor : s.deliveryCursors operation.room = some operation.parent.toNat := by
      rcases sound.anchored id operation carries with here | ⟨row, present, named, -⟩
      · exact here
      · obtain ⟨_, -, -, apart, -⟩ := stores_cases stores
        exact absurd named (apart row present).1
    exact sound.store stores cursor le_rfl (.inl rfl)
  | conflict moved forgets =>
    exact sound.release ((frame_forgets forgets).releases
      (releases_clearAttempt.frame ⟨rfl, rfl, rfl, rfl, fun _ => rfl⟩))
  | refuse lasting forgets =>
    exact sound.release ((frame_forgets forgets).releases releases_deleteIntents)

theorem builds_serves {id : MessageId} {parent : Nat} {request : Request}
    (builds : Builds e s row id parent request t) : Serves row request ∧
      ∀ operation, request = .appendRoomOperation operation →
        operation.room = row.room ∧ operation.parent = UInt64.ofNat parent := by
  cases builds with
  | reservation target _ => exact ⟨target, fun _ same => by cases same⟩
  | addition _ _ _ =>
    refine ⟨rfl, fun operation same => ?_⟩
    rw [← Request.appendRoomOperation.inj same]
    exact ⟨rfl, rfl⟩
  | message _ _ _ _ _ =>
    refine ⟨rfl, fun operation same => ?_⟩
    rw [← Request.appendRoomOperation.inj same]
    exact ⟨rfl, rfl⟩

theorem Sound.joins (sound : Sound e.user s) {row : WelcomeInboxRow} {welcome : WelcomeDelivery}
    {group : mls.Group} (joins : JoinsWelcome e s row welcome group t) : Sound e.user t := by
  obtain ⟨-, verified, ⟨_, u, v, w, joins, -, placed, named, journals⟩, -⟩ := joins
  refine Sound.journal ?_ journals fun _ same => by cases same
  have named' := frame_upsertRoom named
  refine Sound.frame (s := w) (Sound.frame (s := v) ?_ named') ⟨rfl, rfl, rfl, rfl, fun _ => rfl⟩
  obtain ⟨free, rfl⟩ := insertCursor_rest placed
  rcases joins with ⟨found, held, rfl⟩ | ⟨_, _, made, -, -, -, -, -, -, rfl⟩
  · have placed := sound.ordered.placed welcome.room
    rw [held, free] at placed
    cases placed
  refine sound.place free verified.bound rfl (fun other => ?_) rfl rfl rfl
  split
  · rename_i same
    rw [same]
    exact congrArg Option.isSome (Store.writeGroup_self s welcome.room made)
  · rename_i apart
    exact congrArg Option.isSome (Store.writeGroup_of_ne s apart made)

theorem Sound.commits (sound : Sound e.user s) {asked : UserCommand → Prop}
    {known : MessageId × Request → Response → Prop} {fresh : MessageId → Prop}
    (commits : Commits e asked known fresh s t) : Sound e.user t := by
  cases commits with
  | contact _ _ => exact sound.frame frame_insertContact
  | command _ orders _ journals =>
    refine Sound.journal ?_ journals ?_
    · exact sound.frame ⟨rfl, rfl, rfl, rfl, fun _ => rfl⟩
    · rintro operation rfl
      cases orders
  | intent _ _ inserted => exact sound.plan rfl inserted
  | name named => exact sound.frame (frame_upsertRoom named)
  | complete entry _ completes =>
    exact sound.completes (sound.linked.carries_of_entry entry) completes
  | receive group _ _ place above next stores =>
    subst place
    exact sound.store stores (sound.ordered.cursor_of_group group) above next
  | @attempt row id request u v planned idle _ group _ builds journals =>
    have frame := frame_builds builds
    obtain ⟨serves, stands⟩ := builds_serves builds
    have cursor := sound.ordered.cursor_of_group group
    refine (sound.frame frame).attempt (by rw [frame.intents]; exact planned) idle serves journals ?_
    intro operation same
    obtain ⟨room, parent⟩ := stands operation same
    have bound := sound.ordered.bounded row.room _ cursor
    rw [frame.cursors, room, parent, cursor, UInt64.toNat_ofNat_of_lt']
    exact lt_of_le_of_lt bound (by decide)
  | welcomes _ _ _ => exact sound.frame ⟨rfl, rfl, rfl, rfl, fun _ => rfl⟩
  | suspend _ _ => exact sound.frame ⟨rfl, rfl, rfl, rfl, fun _ => rfl⟩
  | join _ _ joins => exact sound.joins joins
  | settle ready settles => exact sound.settles ready settles

theorem sound_empty (user : UserId) : Sound user (Store.empty mls) := by
  have unsent : ∀ id request, ¬Carries (Store.empty mls) id request := by
    rintro id request ⟨row, present, -⟩
    cases present
  refine ⟨⟨?_, List.nodup_nil, List.nodup_nil, ?_, fun _ => rfl, ?_, ?_⟩,
    ⟨List.nodup_nil, ?_, List.nodup_nil, List.nodup_nil, ?_, ?_⟩, ?_⟩
  · intro row present
    cases present
  · intro room n placed
    cases placed
  · intro row present
    cases present
  · intro row present
    cases present
  · intro row present
    cases present
  · intro row present
    cases present
  · intro id operation carries
    exact absurd carries (unsent id _)
  · intro id operation carries
    exact absurd carries (unsent id _)

end Commits

end Grotto.Client.Consistency
