/- GID: Grotto/Relay/Outsiders
   digest: What an outsider's request changes of a room, and of the answers to its later appends. -/

import Grotto.Relay.WelcomePage

set_option autoImplicit false

namespace Grotto.Relay.Outsiders

open Format.Varint (Bytes)
open Format.Postcard (Octets)
open Protocol.Records Protocol.Wire Protocol.Transcripts
open Storage Deliver Steps Invariant
open Log
open WelcomePage (cave createCall)

/-- Two databases hold the same rows of a room and charge it the same bytes. -/
structure SameRoom (room : RoomId) (db other : Db) : Prop where
  events : ofRoom db.deliveryEvents room = ofRoom other.deliveryEvents room
  subscribers : (db.roomSubscribers.filter fun row => row.1 = room) =
    other.roomSubscribers.filter fun row => row.1 = room
  row : (db.rooms.find? fun r => r.roomId = room) = other.rooms.find? fun r => r.roomId = room
  ledger : (db.usageRoom.find? fun row => row.1 = room) =
    other.usageRoom.find? fun row => row.1 = room

/-- Two databases that differ at most in other rooms, the ledger of `user` and its request `id`. -/
structure Level (user : UserId) (id : MessageId) (room : RoomId) (db other : Db) : Prop where
  at_room : SameRoom room db other
  events : db.deliveryEvents = other.deliveryEvents
  welcomes : db.deliveryWelcomes = other.deliveryWelcomes
  ledger : ∀ caller ≠ user, (db.usageSender.find? fun row => row.1 = caller) =
    other.usageSender.find? fun row => row.1 = caller
  saved : ∀ caller request, (caller = user → request ≠ id) →
    db.savedRequest caller request = other.savedRequest caller request

variable {row : RoomRow}

section SameRoom

variable {room : RoomId} {db other third : Db} {request : Request} {id : MessageId} {user : UserId}

theorem SameRoom.refl (room : RoomId) (db : Db) : SameRoom room db db := ⟨rfl, rfl, rfl, rfl⟩

theorem SameRoom.trans (same : SameRoom room db other) (next : SameRoom room other third) :
    SameRoom room db third :=
  ⟨same.events.trans next.events, same.subscribers.trans next.subscribers, same.row.trans next.row,
    same.ledger.trans next.ledger⟩

theorem SameRoom.isSubscribed (same : SameRoom room db other) (user : UserId) :
    db.isSubscribed room user = other.isSubscribed room user := by
  have listed : ∀ d : Db, d.isSubscribed room user = true ↔
      (room, user) ∈ d.roomSubscribers.filter fun row => row.1 = room := by
    intro d
    rw [isSubscribed_iff, List.mem_filter]
    simp
  rw [Bool.eq_iff_iff, listed, listed, same.subscribers]

theorem filter_subscribe (db : Db) (place : RoomId) (user : UserId) :
    ((db.subscribe place user).roomSubscribers.filter fun row => row.1 = room) =
      (db.roomSubscribers.filter fun row => row.1 = room) ++
        if place = room ∧ db.isSubscribed place user = false then [(place, user)] else [] := by
  unfold Db.subscribe
  cases db.isSubscribed place user <;> by_cases at_room : place = room <;> simp [at_room]

theorem SameRoom.subscribe (same : SameRoom room db other) (user : UserId) :
    SameRoom room (db.subscribe room user) (other.subscribe room user) := by
  refine ⟨?_, ?_, ?_, ?_⟩
  · simpa using same.events
  · rw [filter_subscribe, filter_subscribe, same.subscribers, same.isSubscribed]
  · simpa using same.row
  · rw [subscribe_usageRoom, subscribe_usageRoom]
    exact same.ledger

end SameRoom

variable {c : Call}

section Appends

inductive Alike {α : Type} (related : α → α → Prop) :
    Except StorageError α → Except StorageError α → Prop
  | error (e : StorageError) : Alike related (.error e) (.error e)
  | ok {a b : α} (holds : related a b) : Alike related (.ok a) (.ok b)

theorem Alike.bind {α β : Type} {related : α → α → Prop} {after : β → β → Prop}
    {x y : Except StorageError α} {f g : α → Except StorageError β} (first : Alike related x y)
    (rest : ∀ a b, related a b → Alike after (f a) (g b)) : Alike after (x >>= f) (y >>= g) := by
  cases first with
  | error e => exact .error e
  | ok holds => exact rest _ _ holds

theorem Alike.same {α : Type} (x : Except StorageError α) : Alike Eq x x := by
  cases x with
  | error e => exact .error e
  | ok a => exact .ok rfl

theorem Alike.split {α : Type} {related : α → α → Prop} {x y : Except StorageError α}
    (alike : Alike related x y) :
    (∃ e, x = .error e ∧ y = .error e) ∨ ∃ a b, x = .ok a ∧ y = .ok b ∧ related a b := by
  cases alike with
  | error e => exact .inl ⟨e, rfl, rfl⟩
  | ok holds => exact .inr ⟨_, _, rfl, rfl, holds⟩

variable {room : RoomId} {db other : Db}

variable {user : UserId} {id : MessageId}

end Appends

variable {here : Surroundings}

section Main

variable {room : RoomId} {db : Db} {user : UserId} {id : MessageId} {request : Request}

def narrow : Surroundings :=
  { idle with limits := { StorageLimits.default with room := 30000 } }

end Main

end Grotto.Relay.Outsiders
