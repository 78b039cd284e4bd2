/- GID: Grotto/Client/Habits
   digest: What every service keeps to when storage calls and group operations do. -/

import Grotto.Client.Delivery
import Grotto.Client.Effects

set_option autoImplicit false

namespace Grotto.Client.Habits

open Format.Varint (Bytes)
open Protocol.Records Protocol.Wire
open Base.Program.Local
open Contacts Library Tables Calls Groups Effects Delivery

variable {mls : Mls} {α : Type}

/-- A habit of sessions that leaves out the count of calls and the cached groups, with the errors that
storage, the library and the codec raise anywhere. -/
structure Manner (mls : Mls) extends Habit (Session mls) Error where
  counts : ∀ s n, moves s { s with calls := n }
  caches : ∀ s groups, moves s { s with groups := groups }
  storage : ∀ x, raises (.store x)
  library : ∀ x, raises (.mls x)
  encoding : raises .encode
  decoding : raises .decode
  texts : ∀ reason, reason ≠ "room has an unresolved commit" → raises (.text reason)

variable {manner : Manner mls}

section Calls

theorem minds_require {error : Error} {o : Option α} (raised : manner.raises error) :
    (require error o : Service mls α).Minds manner.toHabit := by
  cases o with
  | some a => exact minds_pure a
  | none => exact minds_fail raised

theorem minds_call : (call : Service mls Unit).Minds manner.toHabit := by
  intro s here
  unfold call
  split
  · exact ⟨manner.stay s, fun _ same => Except.error.inj same ▸ manner.storage _⟩
  · split
    · exact ⟨manner.counts s _, fun _ same => Except.error.inj same ▸ manner.storage _⟩
    · exact ⟨manner.counts s _, fun _ impossible => by cases impossible⟩

theorem minds_query {read : Store mls → α} : (query read).Minds manner.toHabit :=
  minds_call.bind fun _ => minds_get fun _ => minds_pure _

theorem minds_update {write : Store mls → Store mls}
    (moved : ∀ s, manner.moves s { s with store := write s.store }) : (update write).Minds manner.toHabit :=
  minds_call.bind fun _ => minds_modify moved

theorem minds_execute {write : Store mls → Except StoreError (Store mls)}
    (moved : ∀ s t, write s.store = .ok t → manner.moves s { s with store := t }) :
    (execute write).Minds manner.toHabit := by
  refine minds_call.bind fun _ s => ends_get ?_
  cases written : write s.store with
  | ok store => exact ends_modify ⟨moved s store written, fun _ impossible => by cases impossible⟩
  | error x => exact minds_fail (manner.storage x) s

theorem minds_onlyIf {condition : Prop} [Decidable condition] {m : Service mls Unit}
    (minds : m.Minds manner.toHabit) : (onlyIf condition m).Minds manner.toHabit := by
  unfold onlyIf
  split
  · exact minds
  · exact minds_pure ()

theorem minds_orFail {error : Error} {m : Service mls α} (raised : manner.raises error)
    (minds : m.Minds manner.toHabit) : (orFail error m).Minds manner.toHabit :=
  minds_attempt minds fun r _ => by
    cases r with
    | ok a => exact minds_pure a
    | error _ => exact minds_fail raised

theorem minds_encoded [Serde α] {message : α} :
    (encoded message : Service mls Bytes).Minds manner.toHabit :=
  minds_mapError fun _ => manner.encoding

theorem minds_decoded [Serde α] {bytes : Bytes} : (decoded α bytes : Service mls α).Minds manner.toHabit :=
  minds_mapError fun _ => manner.decoding

theorem minds_admitNewData {bytes : Nat} :
    (admitNewData bytes : Service mls Unit).Minds manner.toHabit := by
  refine minds_call.bind fun _ s => ends_surroundings fun here => ends_get ?_
  split
  · exact minds_fail (manner.storage _) s
  · exact minds_pure () s

variable (stores : ∀ s t, t.store = s.store → manner.moves s t)

include stores in
theorem minds_begin : (begin : Service mls Unit).Minds manner.toHabit := by
  refine minds_get fun s => ?_
  split
  · exact minds_fail (manner.storage _)
  · split
    · exact minds_fail (manner.storage _)
    · exact minds_call.bind fun _ => minds_modify fun s => stores s _ rfl

include stores in
theorem minds_commit : (commit : Service mls Unit).Minds manner.toHabit :=
  minds_call.bind fun _ => minds_modify fun s => stores s _ rfl

include stores in
theorem minds_transaction {body : Service mls α} (minds : body.Minds manner.toHabit) :
    (transaction body).Minds manner.toHabit := by
  intro s here
  have begun := minds_begin stores s here
  rcases opened : begin here s with ⟨error | _, t⟩ <;> rw [opened] at begun
  · unfold transaction
    rw [opened]
    exact ⟨begun.1, fun _ same => Except.error.inj same ▸ begun.2 error rfl⟩
  have ended := minds.bind (fun value => (minds_commit stores).bind fun _ => minds_pure value) t here
  rcases closed : (do let value ← body; commit; pure value : Service mls α) here t with ⟨error | a, u⟩
    <;> rw [closed] at ended
  · rw [transaction_error opened closed]
    exact ⟨stores s _ (rollback_store here s.store u).1, ended.2⟩
  · rw [transaction_ok opened closed]
    exact ⟨manner.join s t u begun.1 ended.1, ended.2⟩

include stores in
theorem minds_atomic {operation : Service mls α} (minds : operation.Minds manner.toHabit) :
    (atomic operation).Minds manner.toHabit := by
  intro s here
  obtain ⟨groups, same⟩ := atomic_eq operation here s
  rw [same]
  have ended := minds_transaction stores minds s here
  exact ⟨manner.join _ _ _ ended.1 (manner.caches _ groups), ended.2⟩

end Calls

section Groups

variable {room : RoomId} {client : mls.MlsClient}

theorem minds_liftMls {r : Except MlsError α} : (liftMls r : Service mls α).Minds manner.toHabit :=
  minds_mapError manner.library

theorem minds_provider : (provider : Service mls Provider).Minds manner.toHabit := fun s _ =>
  ⟨manner.counts s _, fun _ impossible => by cases impossible⟩

theorem minds_randomness : (randomness : Service mls mls.Seed).Minds manner.toHabit := fun s _ =>
  ⟨manner.counts s _, fun _ impossible => by cases impossible⟩

theorem minds_cacheGroup {group : mls.Group} :
    (cacheGroup room group : Service mls Unit).Minds manner.toHabit :=
  minds_modify fun s => manner.caches s _

theorem minds_setGroup {group : mls.Group} :
    (setGroup room group : Service mls Unit).Minds manner.toHabit :=
  minds_modify fun s => manner.caches s _

theorem minds_verifyMembers {error : Error} (raised : manner.raises error)
    (identities : List SigningIdentity) :
    (verifyMembers error identities : Service mls Unit).Minds manner.toHabit := by
  induction identities with
  | nil => exact minds_pure ()
  | cons identity rest ih =>
    refine (minds_orFail raised minds_query).bind fun verified => ?_
    split
    · exact ih
    · exact minds_fail raised

theorem minds_groupMut : (groupMut room : Service mls mls.Group).Minds manner.toHabit := by
  refine minds_get fun s => ?_
  split
  · exact minds_pure _
  refine (minds_onlyIf (minds_modify fun s => manner.caches s _)).bind fun _ => ?_
  have missing : manner.raises (.text "no local MLS group for room") :=
    manner.texts _ (by simp)
  refine (minds_orFail missing (minds_query.bind fun _ => minds_require missing)).bind fun group => ?_
  refine (minds_verifyMembers (manner.texts _ (by simp)) _).bind fun _ => ?_
  exact minds_cacheGroup.bind fun _ => minds_pure group

theorem minds_hasGroup : (hasGroup room : Service mls Bool).Minds manner.toHabit :=
  minds_attempt minds_groupMut fun r _ => by
    cases r with
    | ok _ => exact minds_pure true
    | error _ => exact minds_pure false

variable (writes : ∀ s room group, manner.moves s { s with store := s.store.writeGroup room group })

include writes in
theorem minds_persist : (persist room : Service mls Unit).Minds manner.toHabit := by
  refine minds_groupMut.bind fun group => minds_orFail (manner.library _) (minds_get fun s => ?_)
  split
  · exact minds_update fun s => writes s room group
  · exact minds_fail (manner.storage _)

include writes in
theorem minds_discardPending : (discardPending room : Service mls Unit).Minds manner.toHabit :=
  minds_groupMut.bind fun _ => minds_setGroup.bind fun _ => minds_persist writes

include writes in
theorem minds_createGroup :
    (createGroup client room : Service mls UInt64).Minds manner.toHabit := by
  refine minds_attempt minds_groupMut fun r _ => ?_
  cases r with
  | ok group => exact minds_pure _
  | error _ =>
    exact minds_randomness.bind fun _ => minds_liftMls.bind fun _ => minds_cacheGroup.bind fun _ =>
      (minds_persist writes).bind fun _ => minds_pure _

include writes in
theorem minds_applyAcceptedCommit :
    (applyAcceptedCommit room : Service mls Unit).Minds manner.toHabit :=
  minds_groupMut.bind fun _ => minds_provider.bind fun _ => minds_setGroup.bind fun _ =>
    minds_liftMls.bind fun _ => minds_persist writes

include writes in
theorem minds_processBound (faults : ∀ fault, manner.raises (.processing fault)) {event : Event} :
    (processBound event : Service mls Processed).Minds manner.toHabit := by
  refine (minds_require (faults _)).bind fun incoming => ?_
  split
  · exact minds_fail (faults _)
  refine minds_groupMut.bind fun group => ?_
  split
  · split
    · exact minds_fail (faults _)
    · exact minds_fail (faults _)
  have refused : ∀ x, manner.raises (processingError x) := by
    intro x
    cases x with
    | identityProvider => exact faults _
    | groupStorage => exact manner.library _
    | other => exact faults _
  refine minds_call.bind fun _ => minds_provider.bind fun _ => minds_setGroup.bind fun _ => ?_
  refine (minds_mapError refused).bind fun received => (minds_require (faults _)).bind fun bound => ?_
  refine (minds_require (faults _)).bind fun leaf => (minds_require (faults _)).bind fun actual => ?_
  split
  · exact minds_fail (faults _)
  · exact (minds_verifyMembers (faults _) _).bind fun _ =>
      (minds_persist writes).bind fun _ => minds_pure _

include writes in
theorem minds_join {welcome : Bytes} :
    (join client room welcome : Service mls UInt64).Minds manner.toHabit := by
  refine minds_hasGroup.bind fun held => ?_
  split
  · exact minds_groupMut.bind fun _ => minds_pure _
  refine (minds_require (manner.texts _ (by simp))).bind fun message => ?_
  refine minds_call.bind fun _ => minds_provider.bind fun _ => minds_get fun s =>
    minds_liftMls.bind fun group => ?_
  split
  · exact minds_fail (manner.texts _ (by simp))
  · exact (minds_verifyMembers (manner.texts _ (by simp)) _).bind fun _ =>
      minds_cacheGroup.bind fun _ => (minds_persist writes).bind fun _ => minds_pure _

end Groups

section Events

variable {e : Engine mls} {event : Event} {own : Option OutboxRow}

theorem minds_bindU64 {n : Nat} : (bindU64 n : Service mls Nat).Minds manner.toHabit := by
  unfold bindU64
  split
  · exact minds_pure n
  · exact minds_fail (manner.storage _)

theorem minds_requireContact {user : UserId} : (requireContact e user).Minds manner.toHabit :=
  minds_query.bind fun _ => (minds_require (manner.storage _)).bind fun _ => minds_mapError manner.storage

theorem minds_receive
    (moved : ∀ s row t, s.store.insertInbox row = .ok t → manner.moves s { s with store := t }) :
    (receive event : Service mls Unit).Minds manner.toHabit := by
  unfold receive
  dsimp only
  split
  · exact minds_fail (manner.texts _ (by simp))
  refine minds_encoded.bind fun bytes => minds_query.bind fun found => ?_
  split
  · split
    · exact minds_fail (manner.texts _ (by simp))
    · exact minds_pure ()
  · exact minds_admitNewData.bind fun _ => minds_execute fun s t => moved s _ t

def Quiet (manner : Manner mls) : Prop :=
  ∀ s store, store.welcomeInbox = s.store.welcomeInbox → manner.moves s { s with store := store }

variable (quiet : Quiet manner)

include quiet in
theorem minds_journal {id : MessageId} {request : Request} :
    (journal id request : Service mls Unit).Minds manner.toHabit := by
  refine (minds_onlyIf (minds_encoded.bind fun _ => minds_admitNewData)).bind fun _ => ?_
  exact minds_encoded.bind fun _ => minds_execute fun s t saved =>
    quiet s t (by rw [saveOutbox_rest saved])

include quiet in
theorem minds_finishEvent {state : ProcessingState} : (finishEvent e event state).Minds manner.toHabit :=
  (minds_update fun s => quiet s _ rfl).bind fun _ => minds_bindU64.bind fun _ =>
    (minds_update fun s => quiet s _ rfl).bind fun _ => minds_journal quiet

include quiet in
theorem minds_applyOwn : (applyOwn event own : Service mls Unit).Minds manner.toHabit := by
  refine (minds_require (manner.texts _ (by simp))).bind fun entry =>
    minds_decoded.bind fun message => ?_
  split
  · split
    · exact minds_fail (manner.texts _ (by simp))
    · refine (minds_onlyIf (minds_applyAcceptedCommit fun s _ _ => quiet s _ rfl)).bind fun _ => ?_
      exact (minds_update fun s => quiet s _ rfl).bind fun _ =>
        (minds_update fun s => quiet s _ rfl).bind fun _ => minds_bindU64.bind fun _ =>
          minds_update fun s => quiet s _ rfl
  · exact minds_fail (manner.texts _ (by simp))

include quiet in
theorem minds_applyPeer (faults : ∀ fault, manner.raises (.processing fault)) :
    (applyPeer event : Service mls Unit).Minds manner.toHabit := by
  refine (minds_processBound (fun s _ _ => quiet s _ rfl) faults).bind fun processed => ?_
  split
  · split
    · exact minds_bindU64.bind fun _ => minds_update fun s => quiet s _ (by rw [recordPlaintext_rest])
    · exact minds_fail (manner.texts _ (by simp))
  · exact minds_pure ()

include quiet in
theorem minds_effect (faults : ∀ fault, manner.raises (.processing fault)) :
    (effect e event own).Minds manner.toHabit := by
  unfold effect
  split
  · exact minds_applyOwn quiet
  · exact minds_applyPeer quiet faults

end Events

end Grotto.Client.Habits
