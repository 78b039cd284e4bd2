/- GID: Grotto/Client/Arrivals
   digest: Events and Welcomes in the client's tables come from answers of the relay. -/

import Grotto.Client.Outbox

set_option autoImplicit false

namespace Grotto.Client.Arrivals

open Protocol.Records Protocol.Wire
open Library Tables
open Delivery Changes Frames

variable {mls : Mls} {s t : Store mls} {e : Engine mls} {asked : UserCommand → Prop}
variable {known : MessageId × Request → Response → Prop} {fresh : MessageId → Prop}

/-- The answer an event came with: the acceptance of an own append, or a page of its room. -/
inductive Arrives (e : Engine mls) (known : MessageId × Request → Response → Prop) (s : Store mls)
    (event : Event) : Prop
  | accepted (mine : event.sender = e.user)
      (carries : Entry s event.id (.appendRoomOperation event.operation))
      (answer : known (event.id, .appendRoomOperation event.operation) (.appendAccepted event))
  | fetched {query : MessageId} {after : UInt64} {events : List Event} {more : Bool}
      (group : (s.mlsGroups event.operation.room).isSome)
      (answer : known (query, .fetchRoomEvents event.operation.room after)
        (.roomEvents event.operation.room after events more)) (listed : event ∈ events)

theorem inbox_of_commits (commits : Commits e asked known fresh s t) :
    t.deliveryInbox = s.deliveryInbox ∨ (∃ event, Stores s event t ∧ Arrives e known s event) ∨
      ∃ event, AtCursor s event ∧ Settles e s event t := by
  cases commits with
  | contact _ _ => exact .inl frame_insertContact.inbox
  | command _ _ _ journals =>
    rw [journals_rest journals]
    exact .inl rfl
  | intent _ _ inserted =>
    obtain ⟨-, rfl⟩ := insertIntent_rest inserted
    exact .inl rfl
  | name named => exact .inl (frame_upsertRoom named).inbox
  | complete entry answer completes =>
    cases completes with
    | create founds named =>
      rw [creates_rest founds named]
      exact .inl rfl
    | close _ => exact .inl rfl
    | reserve _ _ _ _ => exact .inl rfl
    | accept stores => exact .inr (.inl ⟨_, stores, .accepted rfl entry answer⟩)
    | conflict _ forgets => exact .inl (frame_forgets forgets).inbox
    | refuse _ forgets => exact .inl (frame_forgets forgets).inbox
  | receive group answer listed place _ _ stores =>
    subst place
    exact .inr (.inl ⟨_, stores, .fetched group answer listed⟩)
  | attempt _ _ _ _ _ builds journals =>
    rw [journals_rest journals]
    exact .inl (frame_builds builds).inbox
  | welcomes _ _ _ => exact .inl rfl
  | suspend _ _ => exact .inl rfl
  | join _ _ joins =>
    obtain ⟨u, w, -, -, placed, journals⟩ := joins_rest joins
    rw [journals_rest journals, placed]
    exact .inl rfl
  | settle ready settles => exact .inr (.inr ⟨_, ready, settles⟩)

theorem inbox_origin (commits : Commits e asked known fresh s t) {row : InboxRow}
    (listed : row ∈ t.deliveryInbox) :
    (∃ state, { row with state := state } ∈ s.deliveryInbox) ∨
      ∃ event bytes, encodeMessage event = .ok bytes ∧ row = rowOf event bytes .received ∧
        Stores s event t ∧ Arrives e known s event := by
  rcases inbox_of_commits commits with same | ⟨event, stores, arrives⟩ | ⟨event, ready, settles⟩
  · rw [same] at listed
    exact .inl ⟨row.state, listed⟩
  · obtain ⟨bytes, -, encodes, -, rfl⟩ := stores_cases stores
    rcases List.mem_append.mp listed with old | new
    · exact .inl ⟨row.state, old⟩
    · exact .inr ⟨event, bytes, encodes, List.mem_singleton.mp new, stores, arrives⟩
  · obtain ⟨⟨state, inbox⟩, -, -⟩ := settles_tables settles
    rw [inbox] at listed
    obtain ⟨old, held, rfl⟩ := List.mem_map.mp listed
    refine .inl ⟨old.state, ?_⟩
    split
    · exact held
    · exact held

/-- A Welcome in the inbox was there before, in some state, or came with a page. -/
def FromWelcomes (e : Engine mls) (known : MessageId × Request → Response → Prop) (s : Store mls)
    (row : WelcomeInboxRow) : Prop :=
  (∃ state, { row with state := state } ∈ s.welcomeInbox) ∨
    ∃ query after page more welcome, known (query, .fetchWelcomes after) (.welcomes after page more) ∧
      welcome ∈ page ∧ encodeMessage welcome = .ok row.record ∧ row.cursor = welcome.cursor.toNat ∧
      welcome.attachment.recipient = e.user ∧ row.state = .received

theorem fromWelcomes_same (same : t.welcomeInbox = s.welcomeInbox) :
    ∀ row ∈ t.welcomeInbox, FromWelcomes e known s row := by
  rw [same]
  exact fun row present => .inl ⟨row.state, present⟩

theorem fromWelcomes_state (cursor : Nat) (state : ProcessingState)
    (marked : t.welcomeInbox = (s.setWelcomeState cursor state).welcomeInbox) :
    ∀ row ∈ t.welcomeInbox, FromWelcomes e known s row := by
  rw [marked]
  intro row present
  obtain ⟨old, held, rfl⟩ := List.mem_map.mp present
  refine .inl ⟨old.state, ?_⟩
  split
  · exact held
  · exact held

theorem welcomeRows_mem {start last : Nat} {page : List WelcomeDelivery} {rows : List WelcomeInboxRow}
    (listed : WelcomeRows e start page rows last) {row : WelcomeInboxRow} (present : row ∈ rows) :
    ∃ welcome ∈ page, encodeMessage welcome = .ok row.record ∧ row.cursor = welcome.cursor.toNat ∧
      welcome.attachment.recipient = e.user ∧ row.state = .received := by
  induction listed with
  | nil => cases present
  | cons _ mine encoded _ _ ih =>
    rcases List.mem_cons.mp present with rfl | later
    · exact ⟨_, List.mem_cons_self, encoded, rfl, mine, rfl⟩
    · obtain ⟨welcome, inside, rest⟩ := ih later
      exact ⟨welcome, List.mem_cons_of_mem _ inside, rest⟩

theorem welcomes_regroups (regroups : Regroups s t) : t.welcomeInbox = s.welcomeInbox := by
  rw [regroups]

theorem welcomes_recordPlaintext (s : Store mls) (row : HistoryRow) :
    (s.recordPlaintext row).welcomeInbox = s.welcomeInbox := by
  rw [recordPlaintext_rest]

theorem welcomes_builds {row : IntentRow} {id : MessageId} {parent : Nat} {request : Request}
    (builds : Builds e s row id parent request t) : t.welcomeInbox = s.welcomeInbox := by
  cases builds with
  | reservation _ _ => rfl
  | addition _ _ adds => exact welcomes_regroups (regroups_adds adds)
  | message _ _ _ _ encrypts =>
    rw [welcomes_recordPlaintext, welcomes_regroups (regroups_encrypts encrypts)]

theorem welcomes_completes {id : MessageId} {request : Request} {response : Response}
    (completes : Completes e s id request response t) : t.welcomeInbox = s.welcomeInbox := by
  cases completes with
  | create founds named => rw [creates_rest founds named]
  | close _ => rfl
  | reserve _ _ _ _ => rfl
  | accept stores =>
    obtain ⟨_, -, -, -, rfl⟩ := stores_cases stores
    rfl
  | @conflict _ _ u _ forgets =>
    change u.welcomeInbox = s.welcomeInbox
    exact welcomes_regroups (regroups_forgets forgets)
  | @refuse _ _ u _ forgets =>
    change u.welcomeInbox = s.welcomeInbox
    exact welcomes_regroups (regroups_forgets forgets)

theorem welcomes_settles {event : Event} (settles : Settles e s event t) :
    t.welcomeInbox = s.welcomeInbox := by
  cases settles with
  | apply applies finishes =>
    refine (finishes_tables finishes).2.2.1.trans ?_
    cases applies with
    | @own next _ _ merges =>
      change next.welcomeInbox = s.welcomeInbox
      exact welcomes_regroups (merges_own merges).2
    | message _ processes =>
      rw [welcomes_recordPlaintext, welcomes_regroups (regroups_processes processes)]
    | commit _ processes => exact welcomes_regroups (regroups_processes processes)
  | block _ => rfl
  | reject _ _ finishes => exact (finishes_tables finishes).2.2.1

theorem welcomes_origin (commits : Commits e asked known fresh s t) :
    ∀ row ∈ t.welcomeInbox, FromWelcomes e known s row := by
  cases commits with
  | contact _ _ =>
    refine fromWelcomes_same ?_
    unfold Store.insertContact
    split
    · rfl
    · rfl
  | command _ _ _ journals => exact fromWelcomes_same (by rw [journals_rest journals])
  | intent _ _ inserted =>
    obtain ⟨-, rfl⟩ := insertIntent_rest inserted
    exact fromWelcomes_same rfl
  | name named => exact fromWelcomes_same (by rw [upsertRoom_rest named])
  | complete _ _ completes => exact fromWelcomes_same (welcomes_completes completes)
  | receive _ _ _ _ _ _ stores =>
    obtain ⟨_, -, -, -, rfl⟩ := stores_cases stores
    exact fromWelcomes_same rfl
  | @attempt _ _ _ u v _ _ _ _ _ builds journals =>
    refine fromWelcomes_same ?_
    change v.welcomeInbox = s.welcomeInbox
    rw [← welcomes_builds builds, journals_rest journals]
  | welcomes _ answer listed =>
    intro row present
    rcases List.mem_append.mp present with old | new
    · exact .inl ⟨row.state, old⟩
    · obtain ⟨welcome, inside, rest⟩ := welcomeRows_mem listed new
      exact .inr ⟨_, _, _, _, welcome, answer, inside, rest⟩
  | suspend _ _ => exact fromWelcomes_state _ .blocked rfl
  | @join row welcome group _ _ _ joins =>
    obtain ⟨-, -, ⟨_, u, v, w, founds, -, placed, named, journals⟩, -⟩ := joins
    obtain ⟨-, rfl⟩ := insertCursor_rest placed
    rw [journals_rest journals]
    refine fromWelcomes_state row.cursor .applied ?_
    have same : w.welcomeInbox = s.welcomeInbox := by
      rw [upsertRoom_rest named]
      change u.welcomeInbox = s.welcomeInbox
      exact welcomes_regroups (regroups_joins founds)
    change w.welcomeInbox.map _ = s.welcomeInbox.map _
    rw [same]
  | settle _ settles => exact fromWelcomes_same (welcomes_settles settles)

end Grotto.Client.Arrivals
