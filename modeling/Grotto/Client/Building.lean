/- GID: Grotto/Client/Building
   digest: Over a group without a pending commit, an attempt is built without meeting one. -/

import Grotto.Client.Actions
import Grotto.Client.Frames

set_option autoImplicit false

namespace Grotto.Client.Building

open Format.Varint (Bytes)
open Protocol.Records
open Base.Program.Local
open Library Tables Calls
open Groups Effects Habits Delivery Changes
open Frames

variable {mls : Mls} {α β : Type}

/-- What `encrypt_bound` and `build_pending_add` answer over a pending commit. -/
def unresolvedCommit : Error := .text "room has an unresolved commit"

section Services

def Spared (m : Service mls α) (s : Session mls) : Prop :=
  m.Ends s fun r _ => r ≠ .error unresolvedCommit

theorem ok_spared (a : α) : (.ok a : Except Error α) ≠ .error unresolvedCommit := by
  intro impossible
  cases impossible

theorem error_spared {error : Error} (other : error ≠ unresolvedCommit) :
    (.error error : Except Error α) ≠ .error unresolvedCommit :=
  fun same => other (Except.error.inj same)

variable {s : Session mls}

def sparing : Manner mls where
  moves _ _ := True
  raises error := error ≠ unresolvedCommit
  stay _ := trivial
  join _ _ _ _ _ := trivial
  counts _ _ := trivial
  caches _ _ := trivial
  storage _ := by simp [unresolvedCommit]
  library _ := by simp [unresolvedCommit]
  encoding := by simp [unresolvedCommit]
  decoding := by simp [unresolvedCommit]
  texts _ other same := other (Error.text.inj same)

theorem spared_of_minds {m : Service mls α} (minds : m.Minds sparing.toHabit) : Spared m s :=
  (minds s).mono fun _ _ ended failed => ended.2 _ failed rfl

theorem Spared.bind {m : Service mls α} {f : α → Service mls β} (first : Spared m s)
    (rest : ∀ a, (f a).Minds sparing.toHabit) : Spared (m >>= f) s :=
  Ends.bind first (fun a _ _ => spared_of_minds (rest a)) fun _ _ other same =>
    other (congrArg Except.error (Except.error.inj same))

theorem spared_transaction {body : Service mls α} (inside : ∀ t, Keeps s t → Spared body t) :
    Spared (transaction body) s := by
  intro here
  have keeps := ends_begin (s := s) here
  have begun := (spared_of_minds (minds_begin fun _ _ _ => trivial) : Spared begin s) here
  rcases opening : begin here s with ⟨error | _, t⟩ <;> rw [opening] at keeps begun
  · unfold transaction
    rw [opening]
    exact fun same => begun (congrArg Except.error (Except.error.inj same))
  have reached := ((inside t keeps).bind fun value =>
    (minds_commit fun _ _ _ => trivial).bind fun _ => minds_pure value) here
  rcases closing : (do let value ← body; commit; pure value : Service mls α) here t with ⟨error | a, u⟩
    <;> rw [closing] at reached
  · rw [transaction_error opening closing]
    exact reached
  · rw [transaction_ok opening closing]
    exact reached

theorem spared_atomic {operation : Service mls α} (inside : ∀ t, Keeps s t → Spared operation t) :
    Spared (atomic operation) s := by
  intro here
  obtain ⟨groups, same⟩ := atomic_eq operation here s
  rw [same]
  exact spared_transaction inside here

variable {room : RoomId}

def Unpending (store : Store mls) (room : RoomId) : Prop :=
  ∀ group, store.mlsGroups room = some group → mls.hasPendingCommit group = false

theorem spared_on_group {f : mls.Group → Service mls α} (coherent : Coherent s)
    (idle : Unpending s.store room)
    (rest : ∀ group, mls.hasPendingCommit group = false → (f group).Minds sparing.toHabit) :
    Spared (groupMut room >>= f) s := by
  refine Ends.bind ((ends_groupMut coherent).and (spared_of_minds minds_groupMut))
    (fun group t reached => ?_)
    fun _ _ reached same => reached.2 (congrArg Except.error (Except.error.inj same))
  exact spared_of_minds (rest group (idle group (reached.1.2.2 group rfl).1))

theorem spared_encryptBound {plaintext aad : Bytes} (coherent : Coherent s)
    (idle : Unpending s.store room) : Spared (encryptBound room plaintext aad) s := by
  refine spared_on_group coherent idle fun group clear => ?_
  rw [clear, if_neg Bool.false_ne_true]
  exact minds_randomness.bind fun seed => minds_setGroup.bind fun _ => minds_liftMls.bind fun _ =>
    (minds_require (by simp [sparing, unresolvedCommit])).bind fun _ =>
      (minds_persist fun _ _ _ => trivial).bind fun _ => minds_pure _

theorem spared_buildPendingAdd {package aad : Bytes} (coherent : Coherent s)
    (idle : Unpending s.store room) : Spared (buildPendingAdd room package aad) s := by
  refine ends_require_then (fun member _ => ?_) fun _ => error_spared (by simp [unresolvedCommit])
  refine spared_on_group coherent idle fun group clear => ?_
  rw [clear, if_neg Bool.false_ne_true]
  refine minds_randomness.bind fun seed => minds_provider.bind fun identities => ?_
  refine minds_setGroup.bind fun _ => minds_liftMls.bind fun _ => ?_
  refine (minds_require (by simp [sparing, unresolvedCommit])).bind fun _ => ?_
  refine (minds_require (by simp [sparing, unresolvedCommit])).bind fun _ => ?_
  refine (minds_require (by simp [sparing, unresolvedCommit])).bind fun _ => ?_
  exact (minds_persist fun _ _ _ => trivial).bind fun _ => minds_pure _

variable {e : Engine mls} {row : IntentRow} {id : MessageId} {parent : Nat}

theorem spared_attemptRequest (coherent : Coherent s) (idle : Unpending s.store row.room) :
    Spared (attemptRequest e row id parent) s := by
  unfold attemptRequest
  split
  · exact spared_of_minds (minds_pure _)
  · exact (spared_buildPendingAdd coherent idle).bind fun made =>
      (minds_require (by simp [sparing, unresolvedCommit])).bind fun _ => minds_pure _
  · refine ends_require_then (fun plaintext _ => ?_) fun _ => error_spared (by simp [unresolvedCommit])
    exact (spared_encryptBound coherent idle).bind fun made => minds_bindU64.bind fun _ =>
      (minds_update fun _ => trivial).bind fun _ => minds_pure _

theorem spared_attemptBody (coherent : Coherent s) (idle : Unpending s.store row.room) :
    Spared (attemptBody e row id parent) s := by
  refine spared_atomic fun t keeps => ?_
  refine (spared_attemptRequest (keeps.coherent coherent) (by rw [keeps.store]; exact idle)).bind
    fun request => ?_
  exact (minds_journal fun _ _ _ => trivial).bind fun _ => minds_update fun _ => trivial

end Services

section Intents

variable {e : Engine mls} {row : IntentRow}

/-- What looking at one intent leaves of the others and of the groups of other rooms. -/
structure Beside (row : IntentRow) (s t : Store mls) : Prop where
  intents : ∀ other ∈ s.deliveryIntents, other.id ≠ row.id → other ∈ t.deliveryIntents
  groups : ∀ room, room ≠ row.room → t.mlsGroups room = s.mlsGroups room

theorem Beside.of_eq {t : Store mls} {s : Store mls} (same : t = s) : Beside row s t := by
  subst same
  exact ⟨fun _ present _ => present, fun _ _ => rfl⟩

theorem beside_attempt {store made after : Store mls} {id : MessageId} {parent : Nat}
    {request : Request} (builds : Builds e store row id parent request made)
    (journals : Journals made id request after) : Beside row store (after.setAttempt row.id id) := by
  have frame := frame_builds builds
  refine ⟨fun other present apart => List.mem_map.mpr ⟨other, ?_, if_neg apart⟩, fun room apart => ?_⟩
  · rw [journals_rest journals]
    change other ∈ made.deliveryIntents
    rw [frame.intents]
    exact present
  · change after.mlsGroups room = _
    rw [journals_rest journals]
    cases builds with
    | reservation _ _ => rfl
    | addition _ _ adds =>
      obtain ⟨_, _, _, _, _, _, _, group, -, -, -, -, -, -, -, -, -, rfl⟩ := adds
      exact Store.writeGroup_of_ne store apart group
    | message _ _ _ _ encrypts =>
      obtain ⟨_, _, _, group, -, -, -, -, -, rfl⟩ := encrypts
      rw [recordPlaintext_rest]
      exact Store.writeGroup_of_ne store apart group

end Intents

end Grotto.Client.Building
