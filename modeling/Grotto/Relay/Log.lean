/- GID: Grotto/Relay/Log
   digest: Tables only grow, and the log admits one event for each room and parent. -/

import Grotto.Relay.Invariant

set_option autoImplicit false

namespace Grotto.Relay.Log

open Protocol.Records Protocol.Wire Protocol.Transcripts
open Storage Deliver Steps Invariant

structure Extends (db next : Db) : Prop where
  events : db.deliveryEvents <+: next.deliveryEvents
  welcomes : db.deliveryWelcomes <+: next.deliveryWelcomes
  rooms : db.rooms <+: next.rooms
  subscribers : db.roomSubscribers <+: next.roomSubscribers
  requests : db.deliveryRequests <+: next.deliveryRequests

theorem Extends.refl (db : Db) : Extends db db :=
  ⟨List.prefix_refl _, List.prefix_refl _, List.prefix_refl _, List.prefix_refl _,
    List.prefix_refl _⟩

theorem Extends.trans {a b c : Db} (first : Extends a b) (second : Extends b c) : Extends a c :=
  ⟨first.events.trans second.events, first.welcomes.trans second.welcomes,
    first.rooms.trans second.rooms, first.subscribers.trans second.subscribers,
    first.requests.trans second.requests⟩

variable {user : UserId} {id : MessageId} {request : Request}

theorem extends_of_writes {db next : Db} {response : Response}
    (writes : Writes db user id request response next) : Extends db next := by
  cases writes with
  | rejected | read | acknowledged | conflict => exact Extends.refl db
  | room normal fresh =>
    refine ⟨by simp, by simp, by simp, ?_, by simp⟩
    refine List.IsPrefix.trans ?_ (subscribe_extends _ _ _)
    exact List.prefix_refl _
  | granted =>
    split
    · exact Extends.refl db
    · exact ⟨List.prefix_refl _, List.prefix_refl _, List.prefix_refl _, List.prefix_refl _,
        List.prefix_refl _⟩
  | event accepts plain =>
    exact ⟨List.prefix_append _ _, List.prefix_refl _, List.prefix_refl _, List.prefix_refl _,
      List.prefix_refl _⟩
  | invitation accepts attached found space kept =>
    refine ⟨by simp, by simp, by simp, ?_, by simp⟩
    refine List.IsPrefix.trans ?_ (subscribe_extends _ _ _)
    exact List.prefix_refl _
  | packages | revoked | reserved =>
    exact ⟨List.prefix_refl _, List.prefix_refl _, List.prefix_refl _, List.prefix_refl _,
      List.prefix_refl _⟩

variable {sha256 : Hash}

theorem extends_of_journals {db final : Db} {response : Response}
    (journals : Journals sha256 db user id request response final) : Extends db final := by
  obtain ⟨wire, bytes, next, sender, room, encoded, kept, writes, rfl⟩ := journals.witness
  have grown := extends_of_writes writes
  exact ⟨grown.events, grown.welcomes, grown.rooms, grown.subscribers,
    grown.requests.trans (List.prefix_append _ _)⟩

theorem extends_deliver (sha256 : Hash) (here : Surroundings) (db : Db) (user : UserId)
    (id : MessageId) (request : Request) :
    Extends db (deliver sha256 here db user id request).2 := by
  have delivers := deliver_delivers sha256 here db user id request
  generalize (deliver sha256 here db user id request).1 = answer at delivers
  generalize (deliver sha256 here db user id request).2 = final at delivers ⊢
  cases delivers with
  | settled journals => exact extends_of_journals journals
  | _ => exact Extends.refl db

theorem extends_runCalls (sha256 : Hash) (db : Db) (calls : List Call) :
    Extends db (runCalls sha256 db calls) := by
  induction calls generalizing db with
  | nil => exact Extends.refl db
  | cons c calls ih => exact (extends_deliver sha256 c.here db c.user c.id c.request).trans (ih _)

variable {e : Event}

private theorem read_not_accepted {here : Surroundings} {db next : Db}
    (read : request.isRead = true)
    (executed : execute here db user id request = .ok (.appendAccepted e, next)) : False := by
  cases request with
  | fetchRoomEvents room start =>
    have result := (map_unchanged executed).1
    unfold fetchRoomEvents at result
    split at result
    · simp at result
    · split at result
      · simp at result
      · simp only [bind, Except.bind] at result
        split at result <;> simp at result
  | fetchWelcomes start =>
    have result := (map_unchanged executed).1
    unfold fetchWelcomes at result
    split at result
    · simp at result
    · simp only [bind, Except.bind] at result
      split at result <;> simp at result
  | syncIndex start => simp [execute, syncIndex] at executed
  | _ => simp [Request.isRead] at read

theorem accepted_logged {here : Surroundings} {db : Db} (valid : Valid sha256 db)
    (answer : (deliver sha256 here db user id request).1 = .ok (.appendAccepted e)) :
    e.id = id ∧ e.sender = user ∧
      ∃ log ∈ (deliver sha256 here db user id request).2.deliveryEvents, Holds log e := by
  have delivers := deliver_delivers sha256 here db user id request
  rw [answer] at delivers
  have after := valid.deliver here user id request
  generalize (deliver sha256 here db user id request).2 = final at delivers after ⊢
  cases delivers with
  | @replayed wire row _ encoded saved same decoded =>
    obtain ⟨member, rfl, rfl⟩ := savedRequest_some saved
    obtain ⟨request, response, result⟩ := valid.journal.results row member
    have equal := result.decoded
    rw [decoded] at equal
    obtain ⟨-, id, sender, log, inside, holds⟩ := result.recorded e (Except.ok.inj equal).symm
    exact ⟨id, sender, log, inside, holds⟩
  | answered read unused executed => exact (read_not_accepted read executed).elim
  | settled journals =>
    obtain ⟨wire, bytes, next, sender, room, encoded, kept, writes, rfl⟩ := journals.witness
    rcases Writes.events_eq writes journals.durable with
      ⟨-, none⟩ | ⟨operation, record, accepts, rfl, accepted, grown⟩
    · exact absurd rfl (none e)
    · obtain rfl := Response.appendAccepted.inj accepted
      refine ⟨rfl, rfl, _, ?_, accepts_holds accepts⟩
      rw [grown]
      exact List.mem_append_right _ (List.mem_singleton_self _)

theorem history_logged {db : Db} (valid : Valid sha256 db) {calls : List Call} {c : Call}
    (entry : (c, Except.ok (Response.appendAccepted e)) ∈ history sha256 db calls) :
    e.id = c.id ∧ e.sender = c.user ∧
      ∃ log ∈ (runCalls sha256 db calls).deliveryEvents, Holds log e := by
  induction calls generalizing db with
  | nil => simp [history] at entry
  | cons first calls ih =>
    rcases List.mem_cons.mp entry with head | tail
    · obtain ⟨rfl, answer⟩ := Prod.mk.inj head
      obtain ⟨id, sender, log, inside, holds⟩ := accepted_logged valid answer.symm
      exact ⟨id, sender, log,
        (extends_runCalls sha256 (c.after sha256 db) calls).events.subset inside, holds⟩
    · exact ih (valid.deliver first.here first.user first.id first.request) tail

/-- In every state the calls can reach: each room's sequences are `1, …, n`, every record is the
event its row names, event ids are unique, later calls only append, and acceptances at one room
and parent share their caller and identifier. -/
theorem relay_log_invariant (sha256 : Hash) (calls : List Call) :
    (∀ room, ∃ n, ((runCalls sha256 Db.empty calls).deliveryEvents.filter
        fun row => row.room = room).map EventRow.sequence = List.range' 1 n) ∧
    (∀ row ∈ (runCalls sha256 Db.empty calls).deliveryEvents, ∃ e,
      decodeMessage Event row.record = .ok e ∧ e.operation.room = row.room ∧
      e.operation.parent.toNat + 1 = row.sequence ∧ e.id = row.eventId ∧ e.sender = row.sender) ∧
    ((runCalls sha256 Db.empty calls).deliveryEvents.map EventRow.eventId).Nodup ∧
    (∀ more, (runCalls sha256 Db.empty calls).deliveryEvents <+:
      (runCalls sha256 Db.empty (calls ++ more)).deliveryEvents) ∧
    (∀ c d : Call, ∀ e f : Event,
      (c, Except.ok (Response.appendAccepted e)) ∈ history sha256 Db.empty calls →
      (d, Except.ok (Response.appendAccepted f)) ∈ history sha256 Db.empty calls →
      e.operation.room = f.operation.room → e.operation.parent = f.operation.parent →
      c.user = d.user ∧ c.id = d.id ∧ e = f) := by
  have valid := (Valid.empty sha256).runCalls calls
  refine ⟨fun room => ⟨_, valid.log.sequences room⟩, ?_, valid.log.ids, ?_, ?_⟩
  · intro row member
    obtain ⟨e, holds⟩ := valid.log.records row member
    exact ⟨e, holds.decoded, holds.room, holds.parent, holds.id, holds.sender⟩
  · intro more
    have grown := extends_runCalls sha256 (runCalls sha256 Db.empty calls) more
    simpa only [runCalls, List.foldl_append] using grown.events
  · intro c d e f left right room parent
    obtain ⟨idc, userc, logc, insidec, holdsc⟩ := history_logged (Valid.empty sha256) left
    obtain ⟨idd, userd, logd, insided, holdsd⟩ := history_logged (Valid.empty sha256) right
    have same : logc = logd := by
      refine valid.log.row_unique insidec insided ?_ ?_
      · rw [← holdsc.room, ← holdsd.room, room]
      · rw [← holdsc.parent, ← holdsd.parent, parent]
    subst same
    obtain rfl := holdsc.unique holdsd
    exact ⟨userc.symm.trans userd, idc.symm.trans idd, rfl⟩

end Grotto.Relay.Log
