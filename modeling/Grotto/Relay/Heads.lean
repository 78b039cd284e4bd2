/- GID: Grotto/Relay/Heads
   digest: Room heads only grow, accepted appends alone raise them, and index pages show them. -/

import Grotto.Relay.Recovery

set_option autoImplicit false

namespace Grotto.Relay.Heads

open Protocol.Records Protocol.Transcripts
open Base.Paging
open Storage Deliver Steps Invariant
open Log Pages Recovery

variable {sha256 : Hash} {db next : Db} {here : Surroundings} {user caller : UserId}
  {id : MessageId} {request : Request} {room : RoomId}

theorem isSubscribed_mono (grown : Extends db next) (subscribed : db.isSubscribed room user = true) :
    next.isSubscribed room user = true := by
  rw [isSubscribed_iff] at subscribed ⊢
  exact grown.subscribers.subset subscribed

theorem head_mono (grown : Extends db next) (before : Valid sha256 db) (after : Valid sha256 next)
    (room : RoomId) : db.head room ≤ next.head room := by
  rw [before.log.head_eq, after.log.head_eq]
  exact (grown.events.filter _).length_le

theorem head_congr (same : next.deliveryEvents = db.deliveryEvents) (room : RoomId) :
    next.head room = db.head room := by
  unfold Db.head
  rw [same]

section Quiet

def Placed (db : Db) : Prop := ∀ row ∈ db.deliveryEvents, ∃ r ∈ db.rooms, r.roomId = row.room

theorem placed_empty : Placed Db.empty := fun _ member => nomatch member

structure Quiet (db next : Db) (user : UserId) : Prop where
  events : next.deliveryEvents = db.deliveryEvents
  subscribed : ∀ room, next.isSubscribed room user = true →
    db.isSubscribed room user = true ∨ next.head room = 0

theorem Quiet.refl (db : Db) (user : UserId) : Quiet db db user := ⟨rfl, fun _ => .inl⟩

theorem head_of_unplaced (placed : Placed db) (fresh : ∀ r ∈ db.rooms, r.roomId ≠ room) :
    db.head room = 0 := by
  have none : db.deliveryEvents.filter (fun row => row.room = room) = [] := by
    rw [List.filter_eq_nil_iff]
    intro row member here
    obtain ⟨r, listed, same⟩ := placed row member
    exact fresh r listed (same.trans (of_decide_eq_true here))
  unfold Db.head
  rw [none]
  rfl

theorem isSubscribed_subscribe {other : RoomId} {owner : UserId}
    (subscribed : (db.subscribe other owner).isSubscribed room user = true) :
    db.isSubscribed room user = true ∨ room = other := by
  unfold Db.subscribe at subscribed
  split at subscribed
  · exact .inl subscribed
  · rcases List.mem_append.mp (isSubscribed_iff.mp subscribed) with old | new
    · exact .inl (isSubscribed_iff.mpr old)
    · exact .inr (Prod.mk.inj (List.mem_singleton.mp new)).1

theorem placed_of_writes {response : Response} (rooms : Rooms db.rooms db.roomSubscribers)
    (placed : Placed db) (writes : Writes db caller id request response next) : Placed next := by
  have grown := extends_of_writes writes
  have kept : ∀ row ∈ db.deliveryEvents, ∃ r ∈ next.rooms, r.roomId = row.room := by
    intro row member
    obtain ⟨r, listed, same⟩ := placed row member
    exact ⟨r, grown.rooms.subset listed, same⟩
  have added : ∀ {operation record}, Accepts db caller id operation record →
      ∀ row ∈ db.deliveryEvents ++ [eventRow caller id operation record],
        ∃ r ∈ next.rooms, r.roomId = row.room := by
    intro operation record accepts row member
    rcases List.mem_append.mp member with old | new
    · exact kept row old
    · obtain rfl := List.mem_singleton.mp new
      obtain ⟨r, listed, same⟩ := rooms.known _ (isSubscribed_iff.mp accepts.subscribed)
      exact ⟨r, grown.rooms.subset listed, same⟩
  cases writes with
  | event accepts plain => exact added accepts
  | invitation accepts =>
    intro row member
    rw [subscribe_events] at member
    exact added accepts row member
  | room normal fresh =>
    intro row member
    rw [subscribe_events] at member
    exact kept row member
  | granted =>
    intro row member
    refine kept row ?_
    split at member
    · exact member
    · exact member
  | _ => exact kept

theorem quiet_of_writes {response : Response} (user : UserId) (placed : Placed db)
    (writes : Writes db caller id request response next) (other : ∀ e, response ≠ .appendAccepted e) :
    Quiet db next user := by
  cases writes with
  | event accepts plain => exact absurd rfl (other _)
  | invitation accepts => exact absurd rfl (other _)
  | @room _ _ created normal fresh =>
    refine ⟨subscribe_events _ _ _, fun room subscribed => ?_⟩
    rcases isSubscribed_subscribe subscribed with old | new
    · exact .inl old
    · rw [new, ← head_of_unplaced placed fresh]
      exact .inr (head_congr (subscribe_events _ _ _) created)
  | granted =>
    split
    · exact Quiet.refl db user
    · exact ⟨rfl, fun _ => .inl⟩
  | _ => exact ⟨rfl, fun _ => .inl⟩

theorem placed_deliver (valid : Valid sha256 db) (placed : Placed db) :
    Placed (deliver sha256 here db caller id request).2 := by
  have delivers := deliver_delivers sha256 here db caller id request
  generalize (deliver sha256 here db caller id request).1 = answer at delivers
  generalize (deliver sha256 here db caller id request).2 = final at delivers ⊢
  cases delivers with
  | settled journals =>
    obtain ⟨wire, bytes, next, sender, room, encoded, kept, writes, rfl⟩ := journals.witness
    have after : Placed next := placed_of_writes valid.rooms placed writes
    exact after
  | _ => exact placed

theorem quiet_deliver (placed : Placed db)
    (other : ∀ e, (deliver sha256 here db caller id request).1 ≠ .ok (.appendAccepted e)) :
    Quiet db (deliver sha256 here db caller id request).2 user := by
  have delivers := deliver_delivers sha256 here db caller id request
  generalize (deliver sha256 here db caller id request).1 = answer at delivers other
  generalize (deliver sha256 here db caller id request).2 = final at delivers ⊢
  cases delivers with
  | settled journals =>
    obtain ⟨wire, bytes, next, sender, room, encoded, kept, writes, rfl⟩ := journals.witness
    obtain ⟨events, subscribed⟩ := quiet_of_writes user placed writes
      fun e same => other e (congrArg Except.ok same)
    exact ⟨events, subscribed⟩
  | _ => exact Quiet.refl db user

end Quiet

structure Lists (db : Db) (user : UserId) (start : Option RoomId) (rooms : List RoomHead)
    (more : Bool) : Prop where
  heads : ∀ h ∈ rooms, h.sequence.toNat = db.head h.room
  covers : ∀ room, db.isSubscribed room user = true → (∀ s, start = some s → s < room) →
    (∀ last, more = true → rooms.getLast? = some last → room ≤ last.room) →
    room ∈ rooms.map RoomHead.room

theorem syncIndex_lists (valid : Valid sha256 db) {start : Option RoomId} {rooms : List RoomHead}
    {more : Bool}
    (answered : (deliver sha256 here db user id (.syncIndex start)).1 = .ok (.syncIndex rooms more)) :
    Lists db user start rooms more := by
  obtain ⟨-, isPage⟩ := syncIndex_answer valid answered
  obtain ⟨-, env, executed⟩ := page_answer valid rfl rfl answered
  have result := (Prod.mk.inj (Except.ok.inj executed)).1
  obtain ⟨rooms', more', answer, -, named, -⟩ := syncIndex_page valid.rooms user start
  rw [answer] at result
  obtain ⟨rfl, rfl⟩ := Response.syncIndex.inj result
  refine ⟨fun h member => ?_, fun room subscribed later within => ?_⟩
  · obtain ⟨r, -, rfl⟩ := named h member
    exact toNat_ofNat_i64 (valid.log.head_le _)
  have listed : room ∈ (indexView db user).filter (beyond (fun room => room) start) := by
    refine List.mem_filter.mpr ⟨mem_of_subscribed valid.rooms subscribed, ?_⟩
    cases start with
    | none => rfl
    | some s => exact decide_eq_true (later s rfl)
  cases more' with
  | false => exact isPage.whole rfl ▸ listed
  | true =>
    obtain ⟨tail, split⟩ := isPage.front
    have sorted : (rooms'.map RoomHead.room ++ tail).Pairwise (· < ·) := by
      rw [split]
      exact (indexView_sorted valid.rooms user).filter _
    rw [← split] at listed
    rcases List.mem_append.mp listed with inside | outside
    · exact inside
    have nonempty : rooms' ≠ [] := fun empty => (isPage.partly rfl).1 (by rw [empty]; rfl)
    have least := within (rooms'.getLast nonempty) rfl (List.getLast?_eq_getLast_of_ne_nil nonempty)
    have across := (List.pairwise_append.mp sorted).2.2 _
      (List.mem_map_of_mem (List.getLast_mem nonempty)) room outside
    exact absurd least (not_le.mpr across)

end Grotto.Relay.Heads
