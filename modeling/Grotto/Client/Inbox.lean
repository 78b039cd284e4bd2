/- GID: Grotto/Client/Inbox
   digest: Cursors and inbox rows over whole runs, whatever the relay answers. -/

import Grotto.Client.Arrivals
import Grotto.Client.Machine

set_option autoImplicit false

namespace Grotto.Client.Inbox

open Format.Varint (Bytes)
open Protocol.Records Protocol.Wire Protocol.Sizes
open Library Tables
open Delivery Changes Frames Consistency
open Arrivals Machine

variable {mls : Mls} {s t u : Store mls}

/-- Rows stay with their records, and a settled row keeps its state. -/
def Persists (s t : Store mls) : Prop :=
  ∀ row ∈ s.deliveryInbox, ∃ state, { row with state := state } ∈ t.deliveryInbox ∧
    (row.state.isSettled = true → state = row.state)

theorem Persists.refl (s : Store mls) : Persists s s :=
  fun row present => ⟨row.state, present, fun _ => rfl⟩

theorem Persists.trans (first : Persists s t) (second : Persists t u) : Persists s u := by
  intro row present
  obtain ⟨state, kept, final⟩ := first row present
  obtain ⟨later, held, done⟩ := second _ kept
  refine ⟨later, held, fun settled => ?_⟩
  have same := final settled
  rw [← same]
  exact done (by rw [same]; exact settled)

theorem persists_of_subset (kept : ∀ row ∈ s.deliveryInbox, row ∈ t.deliveryInbox) : Persists s t :=
  fun row present => ⟨row.state, kept row present, fun _ => rfl⟩

theorem persists_of_same (same : t.deliveryInbox = s.deliveryInbox) : Persists s t :=
  persists_of_subset fun row present => by rw [same]; exact present

inductive Turns (known : MessageId × Request → Response → Prop) (s t : Store mls) (room : RoomId) :
    Prop
  | stays (same : t.deliveryCursors room = s.deliveryCursors room)
  | created (id : MessageId) (name : String) (missing : s.deliveryCursors room = none)
      (entry : Entry s id (.createRoom name)) (answer : known (id, .createRoom name) (.roomCreated room))
      (zero : t.deliveryCursors room = some 0)
  | welcomed (row : WelcomeInboxRow) (welcome : WelcomeDelivery)
      (missing : s.deliveryCursors room = none) (pending : row ∈ s.welcomeInbox)
      (read : decodeMessage WelcomeDelivery row.record = .ok welcome) (place : welcome.room = room)
      (boundary : t.deliveryCursors room = some welcome.sequence.toNat)
  | settled (event : Event) (bytes : Bytes) (old new : ProcessingState)
      (place : event.operation.room = room) (encodes : encodeMessage event = .ok bytes)
      (unsettled : old.isSettled = false) (before : rowOf event bytes old ∈ s.deliveryInbox)
      (cursor : s.deliveryCursors room = some event.operation.parent.toNat)
      (done : new.isSettled = true) (after : rowOf event bytes new ∈ t.deliveryInbox)
      (advanced : t.deliveryCursors room = some (event.operation.parent.toNat + 1))

section Changes

variable {e : Engine mls} {asked : UserCommand → Prop}
variable {known : MessageId × Request → Response → Prop} {fresh : MessageId → Prop} {event : Event}
variable {state : ProcessingState}

theorem turns_of_same (cursors : t.deliveryCursors = s.deliveryCursors)
    (inbox : t.deliveryInbox = s.deliveryInbox) : Persists s t ∧ ∀ room, Turns known s t room :=
  ⟨persists_of_same inbox, fun room => .stays (by rw [cursors])⟩

theorem turns_of_stores (stores : Stores s event t) :
    Persists s t ∧ ∀ room, Turns known s t room := by
  obtain ⟨bytes, -, -, -, rfl⟩ := stores_cases stores
  exact ⟨persists_of_subset fun row present => List.mem_append_left _ present, fun room => .stays rfl⟩

theorem Ordered.unsettled_at_cursor {bytes : Bytes} (ordered : Ordered s) (ready : AtCursor s event)
    (place : rowOf event bytes state ∈ s.deliveryInbox) : state.isSettled = false := by
  obtain ⟨n, cursor, settled⟩ := ordered.settled _ place
  obtain rfl := Option.some.inj (cursor.symm.trans (ordered.at_cursor ready))
  refine Bool.eq_false_iff.mpr fun done => ?_
  have reached : event.operation.parent.toNat + 1 ≤ event.operation.parent.toNat := settled.mp done
  omega

theorem persists_setInboxState (ordered : Ordered s) (ready : AtCursor s event)
    (inbox : t.deliveryInbox = (s.setInboxState event.id state).deliveryInbox) : Persists s t := by
  obtain ⟨bytes, old, -, place⟩ := ready.held
  intro row present
  rw [inbox]
  by_cases this : row.eventId = event.id
  · obtain rfl := ordered.row_eq_of_id present place this
    refine ⟨state, List.mem_map.mpr ⟨_, present, if_pos rfl⟩, fun done => ?_⟩
    have unsettled := Ordered.unsettled_at_cursor ordered ready place
    change old.isSettled = true at done
    rw [unsettled] at done
    cases done
  · exact ⟨row.state, List.mem_map.mpr ⟨row, present, if_neg this⟩, fun _ => rfl⟩

theorem turns_of_settles (ordered : Ordered s) (ready : AtCursor s event)
    (settles : Settles e s event t) : Persists s t ∧ ∀ room, Turns known s t room := by
  obtain ⟨bytes, old, encodes, place⟩ := ready.held
  have cursor := ordered.at_cursor ready
  have unsettled := Ordered.unsettled_at_cursor ordered ready place
  have finished : ∀ {u : Store mls} {state : ProcessingState}, Finishes e u event state t →
      state.isSettled = true → u.deliveryInbox = s.deliveryInbox →
      u.deliveryCursors = s.deliveryCursors →
      Persists s t ∧ ∀ room, Turns known s t room := by
    intro u state finishes done inbox cursors
    have rest := journals_rest finishes.2
    have rows : t.deliveryInbox = (s.setInboxState event.id state).deliveryInbox := by
      rw [(finishes_tables finishes).1]
      change u.deliveryInbox.map _ = s.deliveryInbox.map _
      rw [inbox]
    have moved : t.deliveryCursors = Function.update s.deliveryCursors event.operation.room
        (some (event.operation.parent.toNat + 1)) := by
      rw [rest, ← cursors]
      rfl
    refine ⟨persists_setInboxState ordered ready rows, fun room => ?_⟩
    by_cases here : event.operation.room = room
    · subst here
      refine .settled event bytes old state rfl encodes unsettled place cursor done ?_ ?_
      · rw [rows]
        exact List.mem_map.mpr ⟨_, place, if_pos rfl⟩
      · rw [moved, Function.update_self]
    · refine .stays ?_
      rw [moved, Function.update_of_ne (Ne.symm here)]
  cases settles with
  | apply applies finishes =>
    rcases applies_cases applies with ⟨-, frame⟩ | ⟨-, -, releases⟩
    · exact finished finishes rfl frame.inbox frame.cursors
    · exact finished finishes rfl releases.inbox releases.cursors
  | block other =>
    exact ⟨persists_setInboxState ordered ready rfl, fun room => .stays rfl⟩
  | reject other refuses finishes => exact finished finishes rfl rfl rfl

theorem turns_of_completes {id : MessageId} {request : Request} {response : Response}
    (entry : Entry s id request) (answer : known (id, request) response)
    (completes : Completes e s id request response t) :
    Persists s t ∧ ∀ room, Turns known s t room := by
  cases completes with
  | @create name room _ u v founds named =>
    rw [creates_rest founds named]
    refine ⟨persists_of_same rfl, fun other => ?_⟩
    cases cursor : s.deliveryCursors room with
    | some n => exact .stays (by simp)
    | none =>
      by_cases here : other = room
      · subst here
        exact .created id name cursor entry answer (by simp)
      · exact .stays (by simp [here])
  | close _ => exact turns_of_same rfl rfl
  | reserve _ _ _ _ => exact turns_of_same rfl rfl
  | accept stores => exact turns_of_stores stores
  | conflict _ forgets =>
    have frame := frame_forgets forgets
    exact turns_of_same frame.cursors frame.inbox
  | refuse _ forgets =>
    have frame := frame_forgets forgets
    exact turns_of_same frame.cursors frame.inbox

theorem turns_of_joins {row : WelcomeInboxRow} {welcome : WelcomeDelivery} {group : mls.Group}
    (pending : row ∈ s.welcomeInbox) (joins : JoinsWelcome e s row welcome group t) :
    Persists s t ∧ ∀ room, Turns known s t room := by
  obtain ⟨u, w, -, free, placed, journals⟩ := joins_rest joins
  have rest := journals_rest journals
  have moved : t.deliveryCursors = Function.update s.deliveryCursors welcome.room
      (some welcome.sequence.toNat) := by
    rw [rest, placed]
  refine ⟨persists_of_same (by rw [rest, placed]), fun room => ?_⟩
  by_cases here : welcome.room = room
  · subst here
    refine .welcomed row welcome free pending joins.read rfl ?_
    rw [moved, Function.update_self]
  · refine .stays ?_
    rw [moved, Function.update_of_ne (Ne.symm here)]

theorem turns_of_commits (ordered : Ordered s) (commits : Commits e asked known fresh s t) :
    Persists s t ∧ ∀ room, Turns known s t room := by
  cases commits with
  | contact _ _ => exact turns_of_same frame_insertContact.cursors frame_insertContact.inbox
  | command _ _ _ journals =>
    rw [journals_rest journals]
    exact turns_of_same rfl rfl
  | intent _ _ inserted =>
    obtain ⟨-, rfl⟩ := insertIntent_rest inserted
    exact turns_of_same rfl rfl
  | name named =>
    have frame := frame_upsertRoom named
    exact turns_of_same frame.cursors frame.inbox
  | complete entry answer completes => exact turns_of_completes entry answer completes
  | receive _ _ _ _ _ _ stores => exact turns_of_stores stores
  | attempt _ _ _ _ _ builds journals =>
    have frame := frame_builds builds
    rw [journals_rest journals]
    exact turns_of_same frame.cursors frame.inbox
  | welcomes _ _ _ => exact turns_of_same rfl rfl
  | suspend _ _ => exact turns_of_same rfl rfl
  | join pending _ joins => exact turns_of_joins pending joins
  | settle ready settles => exact turns_of_settles ordered ready settles

theorem settles_of_changed {bytes : Bytes} {old new : ProcessingState}
    (ordered : Ordered s) (commits : Commits e asked known fresh s t)
    (encodes : encodeMessage event = .ok bytes) (before : rowOf event bytes old ∈ s.deliveryInbox)
    (after : rowOf event bytes new ∈ t.deliveryInbox) (apart : new ≠ old) :
    AtCursor s event ∧ Settles e s event t := by
  have kept : rowOf event bytes new ∉ s.deliveryInbox := fun present =>
    apart (congrArg InboxRow.state (ordered.row_eq_of_id present before rfl))
  rcases inbox_of_commits commits with same | ⟨other, stores, -⟩ | ⟨other, ready, settles⟩
  · rw [same] at after
    exact absurd after kept
  · obtain ⟨_, -, -, distinct, rfl⟩ := stores_cases stores
    rcases List.mem_append.mp after with present | single
    · exact absurd present kept
    · have named := congrArg InboxRow.eventId (List.mem_singleton.mp single)
      exact absurd named (distinct _ before).1
  · obtain ⟨⟨state, rows⟩, -, -⟩ := settles_tables settles
    rw [rows] at after
    obtain ⟨row, present, marked⟩ := List.mem_map.mp after
    by_cases this : row.eventId = other.id
    · rw [if_pos this] at marked
      obtain ⟨written, held, read, place⟩ := ready.held
      obtain rfl := ordered.row_eq_of_id present place this
      have record : written = bytes := congrArg InboxRow.record marked
      rw [record] at read
      obtain rfl := event_eq_of_encode encodes read
      exact ⟨ready, settles⟩
    · rw [if_neg this] at marked
      rw [marked] at present
      exact absurd present kept

end Changes

section Runs

variable {e : Engine mls} {c d : Process mls}

theorem turns_step {move : Move mls} (regular : Regular e c) (taken : c.step e move = some d) :
    Persists c.store d.store ∧ ∀ room, Turns c.known c.store d.store room := by
  rcases (regular_step regular taken).2 with same | commits
  · exact turns_of_same (by rw [same]) (by rw [same])
  · exact turns_of_commits regular.sound.ordered commits

theorem Turns.forward {known : MessageId × Request → Response → Prop} {room : RoomId} {n : Nat}
    (turns : Turns known s t room) (cursor : s.deliveryCursors room = some n) :
    ∃ m, n ≤ m ∧ t.deliveryCursors room = some m := by
  cases turns with
  | stays same => exact ⟨n, le_rfl, same.trans cursor⟩
  | created _ _ missing _ _ _ =>
    rw [missing] at cursor
    cases cursor
  | welcomed _ _ missing _ _ _ _ =>
    rw [missing] at cursor
    cases cursor
  | settled event _ _ _ _ _ _ _ before _ _ advanced =>
    obtain rfl := Option.some.inj (before.symm.trans cursor)
    exact ⟨_, Nat.le_succ _, advanced⟩

theorem run_persists {moves : List (Move mls)} (regular : Regular e c)
    (ran : c.run e moves = some d) : Persists c.store d.store ∧
      ∀ room n, c.store.deliveryCursors room = some n →
        ∃ m, n ≤ m ∧ d.store.deliveryCursors room = some m := by
  have start : Regular e c ∧ Persists c.store c.store ∧
      ∀ room n, c.store.deliveryCursors room = some n →
        ∃ m, n ≤ m ∧ c.store.deliveryCursors room = some m :=
    ⟨regular, Persists.refl _, fun room n cursor => ⟨n, le_rfl, cursor⟩⟩
  have kept : Regular e d ∧ Persists c.store d.store ∧
      ∀ room n, c.store.deliveryCursors room = some n →
        ∃ m, n ≤ m ∧ d.store.deliveryCursors room = some m := by
    refine @run_keeps _ e c d (fun d => Regular e d ∧ Persists c.store d.store ∧
      ∀ room n, c.store.deliveryCursors room = some n →
        ∃ m, n ≤ m ∧ d.store.deliveryCursors room = some m) ?_ moves start ran
    rintro mid move next ⟨governed, rows, cursors⟩ taken
    obtain ⟨persists, turns⟩ := turns_step governed taken
    refine ⟨(regular_step governed taken).1, rows.trans persists, fun room n cursor => ?_⟩
    obtain ⟨m, above, reached⟩ := cursors room n cursor
    obtain ⟨k, further, later⟩ := (turns room).forward reached
    exact ⟨k, above.trans further, later⟩
  exact kept.2

/-- The inbox against the cursors: settled rows up to the cursor, then open rows one by one. -/
structure InOrder (s : Store mls) : Prop where
  placed : ∀ row ∈ s.deliveryInbox, (s.deliveryCursors row.room).isSome
  below : ∀ row ∈ s.deliveryInbox, ∀ n, s.deliveryCursors row.room = some n → row.sequence ≤ n →
    row.state = .applied ∨ row.state = .rejected
  above : ∀ row ∈ s.deliveryInbox, ∀ n, s.deliveryCursors row.room = some n → n < row.sequence →
    row.state = .received ∨ row.state = .blocked
  consecutive : ∀ row ∈ s.deliveryInbox, ∀ n, s.deliveryCursors row.room = some n →
    ∀ k, n < k → k ≤ row.sequence →
      ∃! other, other ∈ s.deliveryInbox ∧ other.room = row.room ∧ other.sequence = k

theorem isSettled_iff (state : ProcessingState) :
    state.isSettled = true ↔ state = .applied ∨ state = .rejected := by
  cases state <;> simp [ProcessingState.isSettled]

theorem isSettled_eq_false (state : ProcessingState) :
    state.isSettled = false ↔ state = .received ∨ state = .blocked := by
  cases state <;> simp [ProcessingState.isSettled]

theorem Ordered.reaches_down (ordered : Ordered s) {row : InboxRow} {n k : Nat}
    (present : row ∈ s.deliveryInbox) (cursor : s.deliveryCursors row.room = some n) (low : n < k)
    (gap : Nat) (high : k + gap = row.sequence) :
    ∃ other ∈ s.deliveryInbox, other.room = row.room ∧ other.sequence = k := by
  induction gap generalizing row with
  | zero => exact ⟨row, present, rfl, high.symm⟩
  | succ gap ih =>
    obtain ⟨before, listed, room, adjacent⟩ :=
      ordered.consecutive row present n cursor (by omega)
    rw [← room] at cursor
    obtain ⟨other, found, same, place⟩ := ih listed cursor (by omega)
    exact ⟨other, found, same.trans room, place⟩

theorem inOrder_of_ordered (ordered : Ordered s) : InOrder s where
  placed row present := by
    obtain ⟨n, cursor, -⟩ := ordered.settled row present
    rw [cursor]
    rfl
  below row present n cursor low := by
    obtain ⟨m, same, settled⟩ := ordered.settled row present
    obtain rfl := Option.some.inj (cursor.symm.trans same)
    exact (isSettled_iff _).mp (settled.mpr low)
  above row present n cursor high := by
    obtain ⟨m, same, settled⟩ := ordered.settled row present
    obtain rfl := Option.some.inj (cursor.symm.trans same)
    refine (isSettled_eq_false _).mp (Bool.eq_false_iff.mpr fun done => ?_)
    have low := settled.mp done
    omega
  consecutive row present n cursor k low high := by
    obtain ⟨other, found, room, place⟩ :=
      Ordered.reaches_down ordered present cursor low (row.sequence - k) (by omega)
    refine ⟨other, ⟨found, room, place⟩, ?_⟩
    rintro another ⟨listed, same, there⟩
    exact ordered.row_eq_of_place listed found (same.trans room.symm) (there.trans place.symm)

/-- In every state a client gets to the inbox is in order, the next move turns each cursor as
listed, and no later state has lost or altered a row, or a settled state. -/
theorem inbox_follows_cursors (reachable : Reachable e c) :
    InOrder c.store ∧
    (∀ move d, c.step e move = some d → ∀ room, Turns c.known c.store d.store room) ∧
    ∀ moves d, c.run e moves = some d → Persists c.store d.store ∧
      ∀ room n, c.store.deliveryCursors room = some n →
        ∃ m, n ≤ m ∧ d.store.deliveryCursors room = some m := by
  have regular := reachable.regular
  exact ⟨inOrder_of_ordered regular.sound.ordered,
    fun move d taken => (turns_step regular taken).2, fun moves d ran => run_persists regular ran⟩

end Runs

end Grotto.Client.Inbox
