/- GID: Grotto/Client/Holdings
   digest: How a client comes to hold groups, and what their pending commits have to do with its outbox. -/

import Grotto.Client.Intents
import Grotto.Client.Laws

set_option autoImplicit false

namespace Grotto.Client.Holdings

open Format.Varint (Bytes)
open Protocol.Records Protocol.Wire
open Library Tables Effects Laws
open Delivery Changes Frames Consistency
open Intents

variable {mls : Mls} {s t u : Store mls} {e : Engine mls} {asked : UserCommand → Prop}
variable {known : MessageId × Request → Response → Prop} {fresh : MessageId → Prop}

variable {room : RoomId}

section Groups

variable {client : mls.MlsClient}

/-- The rooms with a group after a durable change: as before, or with a room that was created or
joined. -/
inductive Gains (known : MessageId × Request → Response → Prop) (s t : Store mls) : Prop
  | none (held : ∀ room, (t.mlsGroups room).isSome = (s.mlsGroups room).isSome)
  | created {id : MessageId} {name : String} {room : RoomId} (entry : Entry s id (.createRoom name))
      (answer : known (id, .createRoom name) (.roomCreated room))
      (outbox : t.outbox = (s.removeOutbox id).outbox)
      (held : ∀ other, (t.mlsGroups other).isSome = (decide (other = room) || (s.mlsGroups other).isSome))
  | joined {row : WelcomeInboxRow} {welcome : WelcomeDelivery} (pending : row ∈ s.welcomeInbox)
      (read : decodeMessage WelcomeDelivery row.record = .ok welcome)
      (held : ∀ other, (t.mlsGroups other).isSome =
        (decide (other = welcome.room) || (s.mlsGroups other).isSome))

theorem isSome_writeGroup (s : Store mls) (room : RoomId) (group : mls.Group) (other : RoomId) :
    ((s.writeGroup room group).mlsGroups other).isSome =
      (decide (other = room) || (s.mlsGroups other).isSome) := by
  by_cases same : other = room
  · rw [same, Store.writeGroup_self, decide_eq_true rfl]
    rfl
  · rw [Store.writeGroup_of_ne s same, decide_eq_false same, Bool.false_or]

theorem isSome_held {group : mls.Group} (held : s.mlsGroups room = some group) (other : RoomId) :
    (s.mlsGroups other).isSome =
      (decide (other = room) || (s.mlsGroups other).isSome) := by
  by_cases same : other = room
  · rw [same, held, decide_eq_true rfl]
    rfl
  · rw [decide_eq_false same, Bool.false_or]

theorem isSome_founds {unread : Prop} (founds : Founds client unread s room t) (other : RoomId) :
    (t.mlsGroups other).isSome =
      (decide (other = room) || (s.mlsGroups other).isSome) := by
  rcases founds with ⟨_, held, rfl⟩ | ⟨_, group, -, -, rfl⟩
  · exact isSome_held held other
  · exact isSome_writeGroup s room group other

theorem isSome_joins {unread : Prop} {welcome : Bytes}
    (joins : Joins client unread s room welcome t) (other : RoomId) : (t.mlsGroups other).isSome =
      (decide (other = room) || (s.mlsGroups other).isSome) := by
  rcases joins with ⟨_, held, rfl⟩ | ⟨_, _, group, -, -, -, -, -, -, rfl⟩
  · exact isSome_held held other
  · exact isSome_writeGroup s room group other

theorem gains_of_commits (commits : Commits e asked known fresh s t) : Gains known s t := by
  cases commits with
  | contact _ _ => exact .none frame_insertContact.groups
  | command _ _ _ journals => exact .none fun room => by rw [journals_rest journals]
  | intent _ _ inserted =>
    obtain ⟨-, rfl⟩ := insertIntent_rest inserted
    exact .none fun _ => rfl
  | name named => exact .none (frame_upsertRoom named).groups
  | complete entry answer completes =>
    cases completes with
    | create founds named =>
      refine .created entry answer ?_ ?_
      · rw [creates_rest founds named]
      · have grown := isSome_founds founds
        rw [creates_rest founds named]
        exact grown
    | close _ => exact .none fun _ => rfl
    | reserve _ _ _ _ => exact .none fun _ => rfl
    | accept stores =>
      obtain ⟨_, -, -, -, rfl⟩ := stores_cases stores
      exact .none fun _ => rfl
    | conflict _ forgets => exact .none (frame_forgets forgets).groups
    | refuse _ forgets => exact .none (frame_forgets forgets).groups
  | receive _ _ _ _ _ _ stores =>
    obtain ⟨_, -, -, -, rfl⟩ := stores_cases stores
    exact .none fun _ => rfl
  | attempt _ _ _ _ _ builds journals =>
    refine .none fun room => ?_
    rw [journals_rest journals]
    exact (frame_builds builds).groups room
  | welcomes _ _ _ => exact .none fun _ => rfl
  | suspend _ _ => exact .none fun _ => rfl
  | join pending _ joins =>
    obtain ⟨u, w, ⟨_, joined⟩, -, placed, journals⟩ := joins_rest joins
    refine .joined pending joins.read fun other => ?_
    rw [journals_rest journals, placed]
    exact isSome_joins joined other
  | settle _ settles => exact .none (settles_tables settles).2.2

theorem Gains.mono (gains : Gains known s t) (held : (s.mlsGroups room).isSome) :
    (t.mlsGroups room).isSome := by
  cases gains with
  | none same => rw [same, held]
  | created _ _ _ grown => rw [grown, held, Bool.or_true]
  | joined _ _ grown => rw [grown, held, Bool.or_true]

def Housed (s : Store mls) : Prop := ∀ row ∈ s.deliveryIntents, (s.mlsGroups row.room).isSome

theorem Housed.commits (housed : Housed s) (linked : Linked s)
    (commits : Commits e asked known fresh s t) : Housed t := by
  intro row planned
  have gains := gains_of_commits commits
  obtain ⟨next, new, evolution⟩ := intents_evolve linked commits
  rcases evolution.origin planned with ⟨old, held, -, evolves⟩ | added
  · rw [evolves.same.2.1]
    exact gains.mono (housed old held)
  · exact gains.mono (evolution.fresh row added).2.2.2

end Groups

variable {id : MessageId} {request : Request}

section Pending

/-- The appends in the outbox and the groups they were built on: the epoch is still the group's, and
the group has a pending commit exactly if the append is a commit. -/
structure Paired (s : Store mls) : Prop where
  epoch : ∀ id operation, Carries s id (.appendRoomOperation operation) →
    ∃ group, s.mlsGroups operation.room = some group ∧ operation.epoch = mls.currentEpoch group
  pending : ∀ room group, s.mlsGroups room = some group → (mls.hasPendingCommit group = true ↔
    ∃ id operation, Carries s id (.appendRoomOperation operation) ∧ operation.room = room ∧
      operation.contentType = .commit)

def Vacant (s : Store mls) (room : RoomId) : Prop :=
  ∀ id operation, Carries s id (.appendRoomOperation operation) → operation.room ≠ room

structure Apart (s t : Store mls) (room : RoomId) : Prop where
  groups : ∀ other, other ≠ room → t.mlsGroups other = s.mlsGroups other
  entries : ∀ id operation, operation.room ≠ room →
    (Carries t id (.appendRoomOperation operation) ↔ Carries s id (.appendRoomOperation operation))

theorem Paired.at_room (paired : Paired s) (apart : Apart s t room)
    (epoch : ∀ id operation, Carries t id (.appendRoomOperation operation) → operation.room = room →
      ∃ group, t.mlsGroups room = some group ∧ operation.epoch = mls.currentEpoch group)
    (pending : ∀ group, t.mlsGroups room = some group → (mls.hasPendingCommit group = true ↔
      ∃ id operation, Carries t id (.appendRoomOperation operation) ∧ operation.room = room ∧
        operation.contentType = .commit)) : Paired t := by
  refine ⟨fun id operation carries => ?_, fun other group held => ?_⟩
  · by_cases here : operation.room = room
    · rw [here]
      exact epoch id operation carries here
    · rw [apart.groups _ here]
      exact paired.epoch id operation ((apart.entries id operation here).mp carries)
  · by_cases here : other = room
    · subst here
      exact pending group held
    rw [apart.groups other here] at held
    rw [paired.pending other group held]
    constructor
    · rintro ⟨id, operation, carries, place, rest⟩
      exact ⟨id, operation, (apart.entries id operation (place ▸ here)).mpr carries, place, rest⟩
    · rintro ⟨id, operation, carries, place, rest⟩
      exact ⟨id, operation, (apart.entries id operation (place ▸ here)).mp carries, place, rest⟩

theorem Paired.vacate (paired : Paired s) (apart : Apart s t room) (vacant : Vacant t room)
    (settled : ∀ group, t.mlsGroups room = some group → mls.hasPendingCommit group = false) :
    Paired t := by
  refine paired.at_room apart (fun id operation carries here => absurd here (vacant id operation carries))
    fun group held => ?_
  rw [settled group held]
  refine ⟨nofun, ?_⟩
  rintro ⟨id, operation, carries, here, -⟩
  exact absurd here (vacant id operation carries)

theorem Paired.same (paired : Paired s) (groups : t.mlsGroups = s.mlsGroups)
    (entries : ∀ id operation, Carries t id (.appendRoomOperation operation) ↔
      Carries s id (.appendRoomOperation operation)) : Paired t := by
  refine ⟨fun id operation carries => ?_, fun room group held => ?_⟩
  · rw [groups]
    exact paired.epoch id operation ((entries id operation).mp carries)
  · simp only [entries]
    rw [groups] at held
    exact paired.pending room group held

theorem Paired.settled (paired : Paired s) (vacant : Vacant s room) {group : mls.Group}
    (held : s.mlsGroups room = some group) : mls.hasPendingCommit group = false := by
  by_contra pending
  obtain ⟨id, operation, carries, here, -⟩ := (paired.pending room group held).mp (by simpa using pending)
  exact vacant id operation carries here

theorem vacant_of_idle (linked : Linked s) {row : IntentRow} (planned : row ∈ s.deliveryIntents)
    (idle : row.attempt = none) : Vacant s row.room := by
  intro id operation carries here
  obtain ⟨found, listed, waiting, place⟩ := linked.planned id operation carries
  obtain rfl := List.inj_on_of_nodup_map linked.rooms listed planned (place.trans here)
  rw [idle] at waiting
  cases waiting

theorem vacant_of_removed (linked : Linked s) {operation : Append}
    (carries : Carries s id (.appendRoomOperation operation))
    (removed : t.outbox = (s.removeOutbox id).outbox) : Vacant t operation.room := by
  intro other found held here
  obtain ⟨apart, old⟩ := carries_removeOutbox.mp ((Carries.congr removed).mp held)
  exact apart (linked.append_once old carries here).1

theorem entries_of_removed (linked : Linked s) {operation : Append}
    (carries : Carries s id (.appendRoomOperation operation))
    (removed : t.outbox = (s.removeOutbox id).outbox) (other : MessageId) (found : Append)
    (elsewhere : found.room ≠ operation.room) :
    Carries t other (.appendRoomOperation found) ↔ Carries s other (.appendRoomOperation found) := by
  rw [Carries.congr removed, carries_removeOutbox, and_iff_right_iff_imp]
  rintro held rfl
  cases linked.carried_once held carries
  exact elsewhere rfl

theorem entries_of_other (linked : Linked s) (carries : Carries s id request)
    (other : ∀ operation, request ≠ .appendRoomOperation operation)
    (removed : t.outbox = (s.removeOutbox id).outbox) (named : MessageId) (operation : Append) :
    Carries t named (.appendRoomOperation operation) ↔ Carries s named (.appendRoomOperation operation) := by
  rw [Carries.congr removed, carries_removeOutbox, and_iff_right_iff_imp]
  rintro held rfl
  exact other operation (linked.carried_once carries held)

theorem entries_of_journals (journals : Journals s id request t)
    (other : ∀ operation, request ≠ .appendRoomOperation operation) (named : MessageId)
    (operation : Append) :
    Carries t named (.appendRoomOperation operation) ↔ Carries s named (.appendRoomOperation operation) := by
  rw [journals_carries journals, or_iff_left_iff_imp]
  rintro ⟨-, same⟩
  exact absurd same.symm (other operation)

theorem Paired.forgets (laws : PendingLaws mls) (paired : Paired s) (linked : Linked s)
    (carries : Carries s id request) (forgets : Forgets s request u)
    (groups : t.mlsGroups = u.mlsGroups) (removed : t.outbox = (s.removeOutbox id).outbox) :
    Paired t := by
  by_cases append : ∃ operation, request = .appendRoomOperation operation
  · obtain ⟨operation, rfl⟩ := append
    have vacant := vacant_of_removed linked carries removed
    have entries := entries_of_removed linked carries removed
    unfold Forgets at forgets
    dsimp only at forgets
    split at forgets
    · obtain ⟨group, held, rfl⟩ := forgets
      refine paired.vacate ⟨fun other apart => ?_, entries⟩ vacant fun after now => ?_
      · rw [groups, Store.writeGroup_of_ne s apart]
      · rw [groups, Store.writeGroup_self] at now
        rw [← Option.some.inj now]
        exact (laws.cleared group).1
    · rename_i plain
      subst forgets
      refine paired.vacate ⟨fun other _ => by rw [groups], entries⟩ vacant fun group held => ?_
      rw [groups] at held
      by_contra pending
      obtain ⟨named, found, carried, here, commit⟩ :=
        (paired.pending _ group held).mp (by simpa using pending)
      rw [(linked.append_once carried carries here).2] at commit
      exact plain commit
  · have other : ∀ operation, request ≠ .appendRoomOperation operation :=
      fun operation same => append ⟨operation, same⟩
    have kept : u = s := by
      unfold Forgets at forgets
      split at forgets
      · exact absurd rfl (other _)
      · exact forgets
    refine paired.same (by rw [groups, kept]) (entries_of_other linked carries other removed)

/-- What an answer leaves. -/
theorem Paired.completes (laws : PendingLaws mls) (paired : Paired s) (linked : Linked s)
    {response : Response} (carries : Carries s id request)
    (vacant : ∀ name room, request = .createRoom name → response = .roomCreated room →
      s.mlsGroups room = none) (completes : Completes e s id request response t) : Paired t := by
  cases completes with
  | @create name room _ u v founds named =>
    have missing := vacant name room rfl rfl
    have empty : Vacant s room := by
      intro named operation held here
      obtain ⟨group, there, -⟩ := paired.epoch named operation held
      rw [here, missing] at there
      cases there
    have entries := entries_of_other (t := (v.insertCursorOrIgnore room 0).removeOutbox id) linked
      carries nofun (by rw [creates_rest founds named])
    rcases founds with ⟨group, held, -⟩ | ⟨seed, group, unseen, made, rfl⟩
    · rw [missing] at held
      cases held
    have apart : Apart s ((v.insertCursorOrIgnore room 0).removeOutbox id) room := by
      refine ⟨fun other apart => ?_, fun named operation _ => entries named operation⟩
      rw [creates_rest (.inr ⟨seed, group, unseen, made, rfl⟩) named]
      exact Store.writeGroup_of_ne s apart group
    refine paired.vacate apart (fun named operation held => empty named operation
      ((entries named operation).mp held)) fun after now => ?_
    rw [creates_rest (.inr ⟨seed, group, unseen, made, rfl⟩) named] at now
    rw [← Option.some.inj ((Store.writeGroup_self s room group).symm.trans now)]
    exact laws.created made
  | close closes =>
    refine paired.same rfl (entries_of_other linked carries (fun operation same => ?_) rfl)
    subst same
    cases closes
  | reserve _ _ _ _ => exact paired.same rfl (entries_of_other linked carries nofun rfl)
  | accept stores =>
    obtain ⟨_, -, -, -, rfl⟩ := stores_cases stores
    exact paired.same rfl fun _ _ => Carries.congr rfl
  | conflict _ forgets =>
    refine paired.forgets laws linked carries forgets rfl ?_
    change List.filter _ _ = List.filter _ _
    rw [(frame_forgets forgets).outbox]
  | @refuse _ _ u _ forgets =>
    refine paired.forgets laws linked carries forgets rfl ?_
    change List.filter _ u.outbox = List.filter _ _
    rw [(frame_forgets forgets).outbox]

/-- The attempt of an intent that had none. -/
theorem Paired.attempt (laws : PendingLaws mls) (paired : Paired s) (linked : Linked s)
    {row : IntentRow} {parent : Nat} (planned : row ∈ s.deliveryIntents)
    (idle : row.attempt = none) (builds : Builds e s row id parent request u)
    (journals : Journals u id request t) : Paired t := by
  have vacant := vacant_of_idle linked planned idle
  have frame := frame_builds builds
  have groups : t.mlsGroups = u.mlsGroups := by rw [journals_rest journals]
  -- The entries of the outbox: those before, and the new one.
  have carried : ∀ named operation, Carries t named (.appendRoomOperation operation) ↔
      Carries s named (.appendRoomOperation operation) ∨
        named = id ∧ Request.appendRoomOperation operation = request := by
    intro named operation
    rw [journals_carries journals, Carries.congr frame.outbox]
  have entries : ∀ made, request = .appendRoomOperation made → made.room = row.room →
      ∀ named operation, operation.room ≠ row.room →
        (Carries t named (.appendRoomOperation operation) ↔
          Carries s named (.appendRoomOperation operation)) := by
    rintro made rfl place named operation apart
    rw [carried, or_iff_left_iff_imp]
    rintro ⟨-, same⟩
    rw [Request.appendRoomOperation.inj same] at apart
    exact absurd place apart
  have only : ∀ made, request = .appendRoomOperation made → ∀ named operation,
      Carries t named (.appendRoomOperation operation) → operation.room = row.room →
        operation = made := by
    rintro made rfl named operation held here
    rcases (carried named operation).mp held with old | ⟨-, same⟩
    · exact absurd here (vacant named operation old)
    · exact Request.appendRoomOperation.inj same
  have journaled : ∀ made, request = .appendRoomOperation made →
      Carries t id (.appendRoomOperation made) := by
    rintro made rfl
    exact (carried id made).mpr (.inr ⟨rfl, rfl⟩)
  cases builds with
  | reservation target package => exact paired.same groups (entries_of_journals journals nofun)
  | addition target package adds =>
    obtain ⟨group, seed, member, identities, message, welcomes, first, after, held, -, -, -, made, -, -,
      -, rfl, rfl⟩ := adds
    have now : t.mlsGroups row.room = some after := by rw [groups, Store.writeGroup_self]
    obtain ⟨pending, epoch, -⟩ := laws.committed made
    refine paired.at_room ⟨fun other apart => ?_, entries _ rfl rfl⟩ (fun named operation held here => ?_)
      fun found there => ?_
    · rw [groups, Store.writeGroup_of_ne s apart]
    · rw [only _ rfl named operation held here]
      exact ⟨after, now, epoch.symm⟩
    · obtain rfl := Option.some.inj (now.symm.trans there)
      rw [pending]
      exact ⟨fun _ => ⟨id, _, journaled _ rfl, rfl, rfl⟩, fun _ => rfl⟩
  | message target package text bound encrypts =>
    obtain ⟨group, seed, message, after, held, idle, made, -, rfl, rfl⟩ := encrypts
    have now : t.mlsGroups row.room = some after := by
      rw [groups, recordPlaintext_rest]
      exact Store.writeGroup_self s row.room after
    obtain ⟨pending, epoch, -⟩ := laws.encrypted made
    refine paired.at_room ⟨fun other apart => ?_, entries _ rfl rfl⟩ (fun named operation held here => ?_)
      fun found there => ?_
    · rw [groups, recordPlaintext_rest]
      exact Store.writeGroup_of_ne s apart after
    · rw [only _ rfl named operation held here]
      exact ⟨after, now, epoch.symm⟩
    obtain rfl := Option.some.inj (now.symm.trans there)
    rw [pending, idle]
    refine ⟨nofun, ?_⟩
    rintro ⟨named, operation, held, here, commit⟩
    rw [only _ rfl named operation held here] at commit
    cases commit

/-- The event at the cursor of a room: an own one ends its attempt, and a peer's finds no attempt. -/
theorem Paired.settles (laws : PendingLaws mls) (paired : Paired s) (sound : Sound e.user s)
    (own : ∀ id operation, Carries s id (.appendRoomOperation operation) →
      ∀ row ∈ s.deliveryInbox, row.eventId = id →
        encodeMessage (⟨id, e.user, operation⟩ : Event) = .ok row.record)
    {event : Event} (ready : AtCursor s event) (settles : Settles e s event t) : Paired t := by
  have linked := sound.linked
  have finished : ∀ {u : Store mls} {state : ProcessingState}, Paired u →
      Finishes e u event state t → Paired t := by
    intro u state paired finishes
    refine paired.same ?_ fun id operation => ?_
    · rw [journals_rest finishes.2]
      rfl
    · exact (entries_of_journals finishes.2 nofun id operation).trans (Carries.congr rfl)
  have quiet : event.sender ≠ e.user → Vacant s event.operation.room := by
    intro other id operation carries here
    obtain ⟨row, present, named, apart⟩ := quiet_of_peer sound ready other id operation carries here
    exact apart (own id operation carries row present named)
  -- A peer's message changes the group of a vacant room.
  have processed : ∀ {u v : Store mls} {outcome : Grotto.Client.Groups.Processed},
      event.sender ≠ e.user → Processes s event outcome u → v.mlsGroups = u.mlsGroups →
      v.outbox = u.outbox → Paired v := by
    intro u v outcome other processes groups outbox
    have vacant := quiet other
    have entries : ∀ id operation, Carries v id (.appendRoomOperation operation) ↔
        Carries s id (.appendRoomOperation operation) := fun id operation =>
      Carries.congr (outbox.trans (frame_processes processes).outbox)
    obtain ⟨incoming, group, identities, received, after, index, result, leaf, -, -, held, -, -, made, -, -,
      -, -, -, rfl⟩ := processes
    have apart : Apart s v event.operation.room := by
      refine ⟨fun room apart => ?_, fun id operation _ => entries id operation⟩
      rw [groups, Store.writeGroup_of_ne s apart]
    refine paired.vacate apart (fun id operation carries => vacant id operation
      ((entries id operation).mp carries)) fun found now => ?_
    rw [groups, Store.writeGroup_self] at now
    rw [← Option.some.inj now]
    by_contra pending
    have before := laws.processed made (by simpa using pending)
    rw [paired.settled vacant held] at before
    cases before
  cases settles with
  | block _ => exact paired.same rfl fun _ _ => Carries.congr rfl
  | reject _ _ finishes => exact finished paired finishes
  | apply applies finishes =>
    refine finished ?_ finishes
    cases applies with
    | message other processes =>
      refine processed other processes ?_ ?_
      · rw [recordPlaintext_rest]
      · rw [recordPlaintext_rest]
    | commit other processes => exact processed other processes rfl rfl
    | @own next mine attempt merges =>
      have carries := linked.carries_of_entry attempt
      split at merges
      · obtain ⟨group, identities, after, held, -, made, rfl⟩ := merges
        refine paired.vacate ⟨fun other apart => Store.writeGroup_of_ne s apart after,
          entries_of_removed linked carries rfl⟩ (vacant_of_removed linked carries rfl)
          fun found now => ?_
        rw [← Option.some.inj ((Store.writeGroup_self s _ after).symm.trans now)]
        exact (laws.applied made).2
      · rename_i plain
        subst merges
        refine paired.vacate ⟨fun _ _ => rfl, entries_of_removed linked carries rfl⟩
          (vacant_of_removed linked carries rfl) fun group held => ?_
        by_contra pending
        obtain ⟨named, found, carried, here, commit⟩ :=
          (paired.pending _ group held).mp (by simpa using pending)
        rw [(linked.append_once carried carries here).2] at commit
        exact plain commit

/-- Every durable change keeps appends and groups paired. -/
theorem Paired.commits (laws : PendingLaws mls) (paired : Paired s) (sound : Sound e.user s)
    (own : ∀ id operation, Carries s id (.appendRoomOperation operation) →
      ∀ row ∈ s.deliveryInbox, row.eventId = id →
        encodeMessage (⟨id, e.user, operation⟩ : Event) = .ok row.record)
    (vacant : ∀ id name room, Carries s id (.createRoom name) →
      known (id, .createRoom name) (.roomCreated room) → s.mlsGroups room = none)
    (commits : Commits e asked known fresh s t) : Paired t := by
  have linked := sound.linked
  cases commits with
  | contact _ _ =>
    refine paired.same ?_ fun _ _ => Carries.congr frame_insertContact.outbox
    unfold Store.insertContact
    split <;> rfl
  | command _ orders _ journals =>
    refine paired.same (by rw [journals_rest journals]) fun id operation => ?_
    refine (entries_of_journals journals (fun operation same => ?_) id operation).trans
      (Carries.congr rfl)
    subst same
    cases orders
  | intent _ _ inserted =>
    obtain ⟨-, rfl⟩ := insertIntent_rest inserted
    exact paired.same rfl fun _ _ => Carries.congr rfl
  | name named =>
    exact paired.same (by rw [upsertRoom_rest named]) fun _ _ =>
      Carries.congr (frame_upsertRoom named).outbox
  | @complete id request response _ entry answer completes =>
    have carries := linked.carries_of_entry entry
    refine paired.completes laws linked carries ?_ completes
    rintro name room rfl rfl
    exact vacant id name room carries answer
  | receive _ _ _ _ _ _ stores =>
    obtain ⟨_, -, -, -, rfl⟩ := stores_cases stores
    exact paired.same rfl fun _ _ => Carries.congr rfl
  | attempt planned idle _ _ _ builds journals =>
    exact (paired.attempt laws linked planned idle builds journals).same rfl
      fun _ _ => Carries.congr rfl
  | welcomes _ _ _ => exact paired.same rfl fun _ _ => Carries.congr rfl
  | suspend _ _ => exact paired.same rfl fun _ _ => Carries.congr rfl
  | @join row welcome group _ _ _ joins =>
    obtain ⟨u, w, ⟨_, joined⟩, free, placed, journals⟩ := joins_rest joins
    have missing : s.mlsGroups welcome.room = none := by
      have same := sound.ordered.placed welcome.room
      rw [free] at same
      exact Option.not_isSome_iff_eq_none.mp (by rw [same]; decide)
    have entries : ∀ id operation, Carries t id (.appendRoomOperation operation) ↔
        Carries s id (.appendRoomOperation operation) := fun id operation =>
      (entries_of_journals journals nofun id operation).trans (Carries.congr (by rw [placed]))
    have groups : t.mlsGroups = u.mlsGroups := by rw [journals_rest journals, placed]
    rcases joined with ⟨_, held, -⟩ | ⟨_, _, made, -, -, -, joins, -, -, rfl⟩
    · rw [missing] at held
      cases held
    have apart : Apart s t welcome.room := by
      refine ⟨fun other apart => ?_, fun id operation _ => entries id operation⟩
      rw [groups, Store.writeGroup_of_ne s apart]
    refine paired.vacate apart (fun id operation carries here => ?_) fun found now => ?_
    · obtain ⟨group, held, -⟩ := paired.epoch id operation ((entries id operation).mp carries)
      rw [here, missing] at held
      cases held
    · rw [groups, Store.writeGroup_self] at now
      rw [← Option.some.inj now]
      exact laws.joined joins
  | settle ready settles => exact paired.settles laws sound own ready settles

theorem paired_empty : Paired (Store.empty mls) := by
  refine ⟨?_, nofun⟩
  rintro id operation ⟨row, present, -⟩
  cases present

end Pending

end Grotto.Client.Holdings
