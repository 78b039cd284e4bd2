/- GID: Grotto/Network/Reservations
   digest: A reserved key package is installed exactly when its bytes are the recipient's. -/

import Grotto.Client.Working
import Grotto.Network.Ledger

set_option autoImplicit false

namespace Grotto.Network.Reservations

open Format.Varint (Bytes)
open Protocol.Records Protocol.Wire Protocol.Transcripts
open Base.Program Base.Program.Local
open Client.Library Client.Tables Client.Calls
open Client.Effects Client.Delivery Client.Changes
open Client.Frames Client.Consistency Client.Machine Client.Outbox
open Client.Intents Client.Working
open Model Ledger
open Relay.Deliver (deliver)
open Relay.Idempotence (Saved unlessFault)

variable {mls : Mls}

section Invariant

/-- A reservation in the outbox is the attempt of one intent, and no two intents share an attempt. -/
structure Reserved (s : Store mls) : Prop where
  backed : ∀ id recipient, Carries s id (.reserveKeyPackage recipient) →
    ∃ row ∈ s.deliveryIntents, row.attempt = some id ∧ row.target = some recipient
  once : ∀ row ∈ s.deliveryIntents, ∀ other ∈ s.deliveryIntents, ∀ id, row.attempt = some id →
    other.attempt = some id → row = other

variable {s t : Store mls} {e : Engine mls} {asked : UserCommand → Prop}
variable {known : MessageId × Request → Response → Prop} {fresh : MessageId → Prop}

theorem uses_of_waiting (linked : Linked s) {row : IntentRow} {id : MessageId}
    (planned : row ∈ s.deliveryIntents) (waiting : row.attempt = some id) : Uses s id := by
  obtain ⟨request, ⟨entry, present, named, -⟩, -⟩ := linked.attempted row planned id waiting
  exact .inl ⟨entry, present, named⟩

theorem Reserved.commits (reserved : Reserved s) (linked : Linked s)
    (unused : ∀ id, fresh id → ¬Uses s id) (commits : Commits e asked known fresh s t) :
    Reserved t := by
  obtain ⟨next, new, evolution⟩ := intents_evolve linked commits
  refine ⟨fun id recipient carries => ?_, fun row planned other listed id waiting also => ?_⟩
  · rcases carries_origin commits carries with old | originates
    · obtain ⟨row, held, waiting, target⟩ := reserved.backed id recipient old
      have evolves := evolution.evolves row held
      refine ⟨row, ?_, waiting, target⟩
      rw [evolution.intents]
      refine List.mem_append_left _ (List.mem_filterMap.mpr ⟨row, held, ?_⟩)
      generalize next row = after at evolves
      cases evolves with
      | kept => rfl
      | attempted idle =>
        rw [waiting] at idle
        cases idle
      | reserved own _ _ gone | conflicted own _ _ gone | refused own _ _ _ gone =>
        obtain rfl := Option.some.inj (waiting.symm.trans own)
        exact absurd carries (gone _)
      | applied own _ _ held' _ =>
        obtain rfl := Option.some.inj (waiting.symm.trans own)
        cases linked.carried_once old held'
    · generalize asks : Request.reserveKeyPackage recipient = request at originates
      cases originates with
      | command _ orders _ =>
        subst asks
        cases orders
      | @attempt row _ u v held _ _ _ builds journals after =>
        subst asks
        cases builds with
        | reservation target _ =>
          refine ⟨{ row with attempt := some id }, ?_, rfl, target⟩
          have same : v.deliveryIntents = s.deliveryIntents := by
            rw [journals_rest journals]
          rw [after]
          refine List.mem_map.mpr ⟨row, by rw [same]; exact held, ?_⟩
          rw [if_pos rfl]
      | settled _ _ => cases asks
      | joined _ _ => cases asks
  · rcases attempt_origin evolution planned waiting with
      left | ⟨drawn, old, held, idle, changed, rfl⟩
    · rcases attempt_origin evolution listed also with
        right | ⟨drawn, -⟩
      · exact reserved.once row left other right id waiting also
      · exact absurd (uses_of_waiting linked left waiting) (unused id drawn)
    · rcases attempt_origin evolution listed also with
        right | ⟨-, old', held', idle', changed', rfl⟩
      · exact absurd (uses_of_waiting linked right also) (unused id drawn)
      · rw [evolution.once old held old' held' idle idle' changed changed']

theorem reserved_empty : Reserved (Store.empty mls) := by
  refine ⟨?_, nofun⟩
  rintro id recipient ⟨row, present, -⟩
  cases present

end Invariant

section Runs

variable {d : Deployment mls} {s : System mls} {past : List (System mls)} {user : UserId}
variable {e : Engine mls}

theorem reserved_run (run : Run d s past) (runs : d.engine user = some e) :
    Reserved (s.clients user).store := by
  refine store_run run runs reserved_empty fun s past fresh after before reserved pool commits => ?_
  have linked := ((joint_run before).accounts user e runs).sound.linked
  exact reserved.commits linked (fun id drawn => (pool id drawn).2.1) commits

end Runs

section Packages

variable {d : Deployment mls} {s : System mls} {past : List (System mls)} {user recipient : UserId}
variable {e : Engine mls} {id : MessageId} {package : Bytes} {store : Store mls} {session : Session mls}

/-- The bytes are a key package, and its leaf is the pinned identity of the recipient. -/
def Usable (s : Store mls) (recipient : UserId) (package : Bytes) : Prop :=
  ∃ message identity, fromWire mls package = some message ∧
    mls.keyPackageIdentity message = some identity ∧ s.verify identity = .ok recipient.bytes.toList

theorem ends_unusable (unusable : ¬Usable session.store recipient package) :
    (completeReservation id recipient package : Service mls Unit).Ends session fun r t =>
      (∃ error, r = .error error) ∧ t.store = session.store := by
  refine ends_require_then (fun message read => ?_) fun _ => ⟨⟨_, rfl⟩, rfl⟩
  refine ends_require_then (fun identity leaf => ?_) fun _ => ⟨⟨_, rfl⟩, rfl⟩
  refine Ends.bind ends_call (fun _ t keeps => ?_) fun _ t keeps => ⟨⟨_, rfl⟩, keeps.store⟩
  refine ends_get (ends_ofExcept_then (fun actual mapped => ?_) fun _ _ => ⟨⟨_, rfl⟩, keeps.store⟩)
  have verified := mapError_ok mapped
  rw [keeps.store] at verified
  split
  · exact ends_fail ⟨⟨_, rfl⟩, keeps.store⟩
  · rename_i same
    rw [not_not.mp same] at verified
    exact absurd ⟨message, identity, read, leaf, verified⟩ unusable

theorem Reserved.installs (reserved : Reserved store) (linked : Linked store)
    (carried : Carries store id (.reserveKeyPackage recipient)) :
    (store.installPackage id recipient package).1 = 1 := by
  obtain ⟨row, planned, waiting, target⟩ := reserved.backed id recipient carried
  have same : ∀ found ∈ store.deliveryIntents.filter (Store.reservedBy id recipient),
      found = row := by
    intro found inside
    obtain ⟨listed, chosen⟩ := List.mem_filter.mp inside
    exact reserved.once found listed row planned id (of_decide_eq_true chosen).1 waiting
  have distinct := (List.Nodup.of_map _ linked.intents).filter (Store.reservedBy id recipient)
  have inside : row ∈ store.deliveryIntents.filter (Store.reservedBy id recipient) :=
    List.mem_filter.mpr ⟨planned, decide_eq_true ⟨waiting, target⟩⟩
  have positive := List.length_pos_of_mem inside
  rw [List.eq_replicate_of_mem same, List.nodup_replicate] at distinct
  change store.deliveryIntents.countP _ = 1
  rw [List.countP_eq_length_filter]
  omega

theorem returns_completeReservation {here : Surroundings mls}
    (works : Works here) (stands : Stands false session)
    (usable : Usable session.store recipient package)
    (one : (session.store.installPackage id recipient package).1 = 1) :
    (completeReservation id recipient package : Service mls Unit).Returns here session fun _ t =>
      t.store = (session.store.installPackage id recipient package).2.removeOutbox id := by
  obtain ⟨message, identity, read, leaf, verified⟩ := usable
  refine returns_require read (returns_require leaf ?_)
  refine (returns_call works stands).bind fun _ t called => returns_get ?_
  refine returns_liftStore (by rw [called.1.store]; exact verified) ?_
  rw [if_neg (not_not.mpr rfl)]
  refine returns_transaction works called.2 fun u begun inside => ?_
  refine (returns_call works inside).bind fun _ v stepped => returns_get ?_
  have store : v.store = session.store :=
    stepped.1.store.trans (begun.store.trans called.1.store)
  rw [store]
  have counted : session.store.deliveryIntents.countP (Store.reservedBy id recipient) = 1 := one
  refine returns_modify_then ?_
  rw [if_neg (not_not.mpr counted)]
  have standing : Stands true { v with store := (session.store.installPackage id recipient package).2 } :=
    ⟨stepped.2.owner, stepped.2.poisoned⟩
  refine (returns_update works standing _).mono fun _ w updated => ⟨updated.2.2, fun x closed _ => ?_⟩
  rw [closed.store, updated.1]

/-- What an answered reservation should come to: its entry is gone, and its intent has the
package or is gone as well. -/
structure Settled (before after : Store mls) (id : MessageId) (package : Bytes) : Prop where
  removed : ∀ request, ¬Carries after id request
  intent : ∃ row ∈ before.deliveryIntents, row.attempt = some id ∧
    ({ row with package := some package, attempt := none } ∈ after.deliveryIntents ∨
      ∀ left ∈ after.deliveryIntents, left.id ≠ row.id)

theorem settled_of_install (reserved : Reserved store)
    (carried : Carries store id (.reserveKeyPackage recipient)) :
    Settled store ((store.installPackage id recipient package).2.removeOutbox id) id package := by
  obtain ⟨row, planned, waiting, target⟩ := reserved.backed id recipient carried
  refine ⟨fun request held => (carries_removeOutbox.mp held).1 rfl, row, planned, waiting, .inl ?_⟩
  exact List.mem_map.mpr ⟨row, planned, if_pos (decide_eq_true ⟨waiting, target⟩)⟩

theorem unsettled_of_unusable (unusable : ¬Usable store recipient package)
    (carried : Carries store id (.reserveKeyPackage recipient)) (here : Surroundings mls) :
    ¬Settled store (complete e id (.reserveKeyPackage recipient) (.keyPackage recipient package) here
      (opened store)).2.store id package := by
  intro settled
  have arm : complete e id (.reserveKeyPackage recipient) (.keyPackage recipient package) =
      completeReservation id recipient package := if_pos rfl
  have same := (@ends_unusable _ _ id _ (opened store) unusable here).2
  rw [arm, same] at settled
  exact settled.removed _ carried

/-- In every state of a run, the journaled answer to a reservation that is in the outbox settles it
exactly when the package is usable. Otherwise `complete` fails wherever it runs, the tables stay as
they are, and the relay gives the same answer again. -/
theorem reservation_settles_iff (run : Run d s past) (runs : d.engine user = some e)
    (carried : Carries (s.clients user).store id (.reserveKeyPackage recipient))
    (journaled : Saved d.sha256 s.relay user id (.reserveKeyPackage recipient)
      (.keyPackage recipient package)) :
    (∀ here session, Works here → Stands false session → session.store = (s.clients user).store →
      (Settled session.store (complete e id (.reserveKeyPackage recipient)
          (.keyPackage recipient package) here session).2.store id package ↔
        Usable session.store recipient package)) ∧
    (¬Usable (s.clients user).store recipient package →
      (∀ here session, session.store = (s.clients user).store →
        (∃ error, (complete e id (.reserveKeyPackage recipient)
          (.keyPackage recipient package) here session).1 = .error error) ∧
        (complete e id (.reserveKeyPackage recipient)
          (.keyPackage recipient package) here session).2.store = session.store) ∧
      ∀ there, deliver d.sha256 there s.relay user id (.reserveKeyPackage recipient) =
        (unlessFault there (.ok (.keyPackage recipient package)), s.relay)) := by
  have reserved := reserved_run run runs
  have linked := ((joint_run run).accounts user e runs).sound.linked
  have arm : complete e id (.reserveKeyPackage recipient) (.keyPackage recipient package) =
      completeReservation id recipient package := if_pos rfl
  rw [arm]
  refine ⟨fun here session works stands tables => ?_, fun unusable => ⟨fun here session tables => ?_,
    fun there => journaled.replay there⟩⟩
  · rw [← tables] at reserved linked carried
    constructor
    · intro settled
      by_contra unusable
      have same := (@ends_unusable _ _ id _ session unusable here).2
      rw [same] at settled
      exact settled.removed _ carried
    · intro usable
      obtain ⟨_, after, result, store⟩ := returns_completeReservation works stands usable
        (reserved.installs linked carried)
      rw [result]
      change Settled session.store after.store id package
      rw [store]
      exact settled_of_install reserved carried
  · rw [← tables] at unusable
    exact ends_unusable unusable here

/-- User 2 publishes some bytes and grants access to them, and user 1 invites user 2. -/
def inviting (package : Bytes) : Scene Client.Cleartext.mls :=
  ((acquainted [sampleUser 1]).then (among [sampleUser 1]) [sampleUser 1]
      (.execute Relay.Deliver.idle (sampleUser 2) (sampleId 51) (.publishKeyPackages [package]))
    |>.then (among [sampleUser 1]) [sampleUser 1]
      (.execute Relay.Deliver.idle (sampleUser 2) (sampleId 52) (.setFetchGrant (sampleUser 1) true))
    |>.turn [sampleUser 1] (sampleUser 1) (.command (.addToRoom soleRoom (sampleUser 2)))
      [sampleId 4] [])

def reserving (package : Bytes) : Scene Client.Cleartext.mls :=
  (inviting package).turn [sampleUser 1] (sampleUser 1) (.drive 9)
    [sampleId 5, sampleId 6, sampleId 7] []

theorem run_reserving (package : Bytes) :
    Run (among [sampleUser 1]) (reserving package).1 (reserving package).2 :=
  ((((run_acquainted _).then (among_listed _) _).then (among_listed _) _).turn _ _ _ _).turn _ _ _ _

theorem carries_reserving : Carries ((reserving [1]).1.clients (sampleUser 1)).store (sampleId 7)
    (.reserveKeyPackage (sampleUser 2)) := by
  have entries : (((reserving [1]).1.clients (sampleUser 1)).store.outbox.map fun row =>
      (row.requestId, Except.ok row.message)) = [(sampleId 7, encodeMessage
        (ClientMessage.delivery (sampleId 7) (.reserveKeyPackage (sampleUser 2))))] := by
    decide +kernel
  obtain ⟨row, present, same⟩ := List.mem_map.mp (entries.symm ▸ List.mem_cons_self)
  exact ⟨row, present, congrArg Prod.fst same, (congrArg Prod.snd same).symm⟩

theorem saved_reserving : Saved trailingBytes (reserving [1]).1.relay (sampleUser 1) (sampleId 7)
    (.reserveKeyPackage (sampleUser 2)) (.keyPackage (sampleUser 2) [1]) := by
  have journal : ((reserving [1]).1.relay.savedRequest (sampleUser 1) (sampleId 7)).map
      (fun row => (Except.ok row.hash, decodeMessage Response row.response)) =
      some (payloadHash trailingBytes (.reserveKeyPackage (sampleUser 2)),
        .ok (.keyPackage (sampleUser 2) [1])) := by
    decide +kernel
  obtain ⟨row, saved, same⟩ := Option.map_eq_some_iff.mp journal
  exact ⟨row, _, saved, encodeMessage_of_le (by decide), Except.ok.inj (congrArg Prod.fst same),
    congrArg Prod.snd same⟩

theorem unusable_reserving :
    ¬Usable ((reserving [1]).1.clients (sampleUser 1)).store (sampleUser 2) [1] := by
  rintro ⟨message, identity, read, -⟩
  have garbage : fromWire Client.Cleartext.mls [1] = none := by decide +kernel
  rw [garbage] at read
  cases read

theorem reservation_settles_iff_reserving :
    ¬Usable ((reserving [1]).1.clients (sampleUser 1)).store (sampleUser 2) [1] ∧
    deliver trailingBytes Relay.Deliver.idle (reserving [1]).1.relay (sampleUser 1) (sampleId 7)
      (.reserveKeyPackage (sampleUser 2)) =
        (.ok (.keyPackage (sampleUser 2) [1]), (reserving [1]).1.relay) :=
  ⟨unusable_reserving, ((reservation_settles_iff (run_reserving [1]) rfl carries_reserving
    saved_reserving).2 unusable_reserving).2 Relay.Deliver.idle⟩

/-- One byte that is no key package: the answer is never settled, and one drive after another
fails on it, also after a restart. -/
theorem garbage_package_wedges :
    Run (among [sampleUser 1]) (reserving [1]).1 (reserving [1]).2 ∧
    Carries ((reserving [1]).1.clients (sampleUser 1)).store (sampleId 7)
      (.reserveKeyPackage (sampleUser 2)) ∧
    Saved trailingBytes (reserving [1]).1.relay (sampleUser 1) (sampleId 7)
      (.reserveKeyPackage (sampleUser 2)) (.keyPackage (sampleUser 2) [1]) ∧
    ¬Settled ((reserving [1]).1.clients (sampleUser 1)).store
      (complete (clearEngine (sampleUser 1)) (sampleId 7) (.reserveKeyPackage (sampleUser 2))
        (.keyPackage (sampleUser 2) [1]) calm
        (opened ((reserving [1]).1.clients (sampleUser 1)).store)).2.store (sampleId 7) [1] ∧
    outcome ((reserving [1]).1.clients (sampleUser 1)) = some (.error (.text "mls parse failed")) ∧
    outcome (((reserving [1]).turn [sampleUser 1] (sampleUser 1) .crash [] []
      |>.turn [sampleUser 1] (sampleUser 1) (.start calm) [] []
      |>.turn [sampleUser 1] (sampleUser 1) (.drive 9) [sampleId 15, sampleId 16] []).1.clients
        (sampleUser 1)) = some (.error (.text "mls parse failed")) := by
  refine ⟨run_reserving [1], carries_reserving, saved_reserving, ?_, by decide +kernel,
    by decide +kernel⟩
  exact unsettled_of_unusable unusable_reserving carries_reserving calm

end Packages

end Grotto.Network.Reservations
