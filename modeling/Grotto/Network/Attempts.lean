/- GID: Grotto/Network/Attempts
   digest: One outstanding attempt per room, in step with the room's cursor and group. -/

import Grotto.Network.Homes

set_option autoImplicit false

namespace Grotto.Network.Attempts

open Protocol.Records Protocol.Wire
open Base.Program
open Client.Library Client.Tables Client.Calls Client.Effects
open Client.Laws Client.Delivery Client.Changes Client.Frames
open Client.Conduct Client.Machine
open Client.Holdings Client.Building
open Model Ledger Mirror Provenance
open Homes

variable {mls : Mls} {d : Deployment mls} {s : System mls} {past : List (System mls)}
variable {user : UserId} {e : Engine mls}

theorem paired_run (laws : PendingLaws mls) (run : Run d s past) (runs : d.engine user = some e) :
    Paired (s.clients user).store := by
  refine store_run run runs paired_empty fun s past fresh after before paired pool commits => ?_
  have joint := joint_run before
  have accounts := joint.accounts user e runs
  refine paired.commits laws accounts.sound ?_ ?_ commits
  · intro id operation carries row present named
    rw [d.named user e runs]
    exact own_event joint (mirrors_run before runs) runs carries present named
  · intro id name room carries answer
    have booked := booked_of_told (accounts.told _ _ (.inr answer)) rfl rfl nofun
    exact ((homed_run before runs).unfounded id name _ room carries booked.saved).1

theorem anchored_run (run : Run d s past) (runs : d.engine user = some e) {id : MessageId}
    {operation : Append} (carries : Carries (s.clients user).store id (.appendRoomOperation operation)) :
    (s.clients user).store.deliveryCursors operation.room = some operation.parent.toNat := by
  have joint := joint_run run
  rcases (joint.accounts user e runs).sound.anchored id operation carries with
    here | ⟨row, present, named, apart⟩
  · exact here
  · rw [d.named user e runs] at apart
    exact absurd (own_event joint (mirrors_run run runs) runs carries present named) apart

theorem coherent_of_failure {α β : Type} {asked : UserCommand → Prop}
    {uses : Store mls → MessageId → Prop} {known : MessageId × Request → Response → Prop}
    {fresh : MessageId → Prop} {session after : Session mls} {m : Service mls α}
    {f : α → Program mls β} {next : β → Program mls Unit} {here : Surroundings mls} {error : Error}
    (leaves : Leaves e asked uses (Prog.perform m >>= f >>= next) known fresh session)
    (fails : m here session = (.error error, after)) (keeps : Keeps session after) :
    Coherent session := by
  obtain ⟨-, ended⟩ := leaves here
  change Prog.Follows _ _ (((Prog.done (m here session).1).bind f).bind next) _ _ (m here session).2 at ended
  rw [fails] at ended
  have safe : Safe e uses _ after := ended
  intro room group cached
  rw [← keeps.store]
  exact safe.coherent room group (by rw [keeps.groups]; exact cached)

theorem coherent_at_building (run : Run d s past) (runs : d.engine user = some e)
    (here : Surroundings mls) {next : Bool → Program mls Unit}
    (building : (s.clients user).program = (buildAttempts e >>= next)) :
    Coherent (s.clients user).session := by
  obtain ⟨fresh, governed, -⟩ := ((joint_run run).accounts user e runs).governed
  have leaves := governed.leaves
  rw [building] at leaves
  have fails : ∀ (look : Store mls → List IntentRow) (session : Session mls), ∃ error after,
      query look { here with fault := fun _ => true } session = (.error error, after) ∧
        Keeps session after := by
    intro look session
    cases closed : session.poisoned with
    | true =>
      refine ⟨.store .lockPoisoned, session, Local.bind_of_error ?_, Keeps.refl _⟩
      unfold call
      rw [if_pos closed]
    | false =>
      refine ⟨.store .database, { session with calls := session.calls + 1 }, Local.bind_of_error ?_,
        rfl, rfl⟩
      unfold call
      rw [if_neg (by simp [closed]), if_pos rfl]
  obtain ⟨error, after, failed, keeps⟩ := fails _ (s.clients user).session
  exact coherent_of_failure leaves failed keeps

/-- In every state a client can get to: an append in the outbox is the only one of its room and the
attempt of the room's only intent, it stands at the room's cursor and at the epoch of the room's
group, and the group has a pending commit exactly if the append is a commit. So no attempt that
`build_attempts` makes, there or from any session that has cached the stored groups, meets an
unresolved commit. -/
theorem single_attempt_per_room (laws : PendingLaws mls) (run : Run d s past)
    (runs : d.engine user = some e) :
    (∀ id operation, Carries (s.clients user).store id (.appendRoomOperation operation) →
      (∀ other found, Carries (s.clients user).store other (.appendRoomOperation found) →
        found.room = operation.room → other = id ∧ found = operation) ∧
      (∃ row ∈ (s.clients user).store.deliveryIntents, row.attempt = some id ∧
        row.room = operation.room ∧ ∀ other ∈ (s.clients user).store.deliveryIntents,
          other.room = operation.room → other = row) ∧
      (s.clients user).store.deliveryCursors operation.room = some operation.parent.toNat ∧
      ∃ group, (s.clients user).store.mlsGroups operation.room = some group ∧
        operation.epoch = mls.currentEpoch group) ∧
    (∀ room group, (s.clients user).store.mlsGroups room = some group →
      (mls.hasPendingCommit group = true ↔ ∃ id operation,
        Carries (s.clients user).store id (.appendRoomOperation operation) ∧
          operation.room = room ∧ operation.contentType = .commit)) ∧
    (∀ (session : Session mls) asked known, session.store = (s.clients user).store →
      Coherent session → (buildAttempts e).Follows (discipline e asked Uses)
        (fun _ _ _ r => r ≠ .error unresolvedCommit) known (fun _ => False) session) ∧
    ∀ next, Nonempty (Surroundings mls) → (s.clients user).program = (buildAttempts e >>= next) →
      Coherent (s.clients user).session := by
  have paired := paired_run laws run runs
  have sound := ((joint_run run).accounts user e runs).sound
  refine ⟨fun id operation carries => ⟨?_, ?_, anchored_run run runs carries, ?_⟩, paired.pending, ?_, ?_⟩
  · exact fun other found held same => sound.linked.append_once held carries same
  · obtain ⟨row, planned, waiting, place⟩ := sound.linked.planned id operation carries
    refine ⟨row, planned, waiting, place, fun other listed same => ?_⟩
    exact List.inj_on_of_nodup_map sound.linked.rooms listed planned (same.trans place.symm)
  · exact paired.epoch id operation carries
  · intro session asked known store coherent
    have safe : Safe e Uses (fun _ => False) session := ⟨coherent, by rw [store]; exact sound, nofun⟩
    refine (follows_buildAttempts safe).mono fun _ _ _ _ reached => reached.2 ?_
    rw [store]
    exact fun row listed waiting group held =>
      paired.settled (vacant_of_idle sound.linked listed waiting) held
  · exact fun next ⟨here⟩ building => coherent_at_building run runs here building

/-- User 1 writes to its room, and the relay is overloaded when the message is sent. -/
def pendingMessage : Scene Client.Cleartext.mls :=
  ((settled [sampleUser 1]).turn [sampleUser 1] (sampleUser 1)
      (.command (.sendRoomMessage soleRoom [104])) [sampleId 4] []
    |>.turn [sampleUser 1] (sampleUser 1) (.drive 9)
      [sampleId 5, sampleId 6, sampleId 7, sampleId 8, sampleId 9]
      [none, none, some (.rejected .overloaded)])

theorem run_pendingMessage : Run (among [sampleUser 1]) pendingMessage.1 pendingMessage.2 :=
  ((run_settled _).turn _ _ _ _).turn _ _ _ _

def appendOf (row : OutboxRow) : Option (MessageId × Append) :=
  match decodeMessage ClientMessage row.message with
  | .ok (.delivery id (.appendRoomOperation operation)) => some (id, operation)
  | _ => none

theorem entry_of_append {store : Store mls} {row : OutboxRow} {operation : Append}
    (present : row ∈ store.outbox) (reads : appendOf row = some (row.requestId, operation)) :
    Entry store row.requestId (.appendRoomOperation operation) := by
  refine ⟨row, present, rfl, ?_⟩
  unfold appendOf at reads
  split at reads
  · rename_i decoded
    cases reads
    exact decoded
  · cases reads

theorem single_attempt_per_room_message : ∃ id operation,
    Carries (pendingMessage.1.clients (sampleUser 1)).store id (.appendRoomOperation operation) ∧
    (pendingMessage.1.clients (sampleUser 1)).store.deliveryCursors operation.room =
      some operation.parent.toNat := by
  have found : ∃ row ∈ (pendingMessage.1.clients (sampleUser 1)).store.outbox,
      ((appendOf row).map Prod.fst) = some row.requestId := by
    decide +kernel
  obtain ⟨row, present, reads⟩ := found
  obtain ⟨⟨id, operation⟩, read, rfl⟩ := Option.map_eq_some_iff.mp reads
  have runs : (among [sampleUser 1]).engine (sampleUser 1) = some (clearEngine (sampleUser 1)) := rfl
  have linked := ((joint_run run_pendingMessage).accounts (sampleUser 1) _ runs).sound.linked
  have carries := linked.carries_of_entry (entry_of_append present read)
  have single := single_attempt_per_room pendingLaws_cleartext run_pendingMessage runs
  exact ⟨_, operation, carries, (single.1 _ operation carries).2.2.1⟩

end Grotto.Network.Attempts
