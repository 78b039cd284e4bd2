/- GID: Grotto/Client/Outbox
   digest: Where the entries of the outbox come from and how they leave it. -/

import Grotto.Client.Consistency

set_option autoImplicit false

namespace Grotto.Client.Outbox

open Protocol.Records Protocol.Transcripts
open Library Tables
open Delivery Changes Frames

variable {mls : Mls} {s t : Store mls} {e : Engine mls} {asked : UserCommand → Prop}
variable {known : MessageId × Request → Response → Prop} {fresh : MessageId → Prop}
variable {id : MessageId} {request : Request}

/-- Where a new entry comes from: a command, an attempt, or the receipt of a settled event or of a
joined Welcome. -/
inductive Originates (e : Engine mls) (asked : UserCommand → Prop) (fresh : MessageId → Prop)
    (s t : Store mls) (id : MessageId) : Request → Prop
  | command {order : UserCommand} {request : Request} (issued : asked order)
      (orders : Orders order request) (new : fresh id) : Originates e asked fresh s t id request
  | attempt {row : IntentRow} {request : Request} {u v : Store mls}
      (planned : row ∈ s.deliveryIntents) (idle : row.attempt = none) (new : fresh id)
      (group : (s.mlsGroups row.room).isSome)
      (builds : Builds e s row id (cursorOf s row.room) request u) (journals : Journals u id request v)
      (after : t = v.setAttempt row.id id) : Originates e asked fresh s t id request
  | settled {event : Event} (named : id = acknowledgementId e.crypto.sha256 e.user [event.id] [])
      (ready : AtCursor s event) : Originates e asked fresh s t id (.acknowledge [event.id] [])
  | joined {row : WelcomeInboxRow} (pending : row ∈ s.welcomeInbox)
      (named : id = acknowledgementId e.crypto.sha256 e.user [] [UInt64.ofNat row.cursor]) :
      Originates e asked fresh s t id (.acknowledge [] [UInt64.ofNat row.cursor])

theorem outbox_of_completes {response : Response} (completes : Completes e s id request response t) :
    t.outbox = (s.removeOutbox id).outbox ∨
      t.outbox = s.outbox ∧ ∃ operation, request = .appendRoomOperation operation ∧
        response = .appendAccepted ⟨id, e.user, operation⟩ := by
  cases completes with
  | create founds named =>
    rw [creates_rest founds named]
    exact .inl rfl
  | close _ => exact .inl rfl
  | reserve _ _ _ _ => exact .inl rfl
  | accept stores =>
    obtain ⟨_, -, -, -, rfl⟩ := stores_cases stores
    exact .inr ⟨rfl, _, rfl, rfl⟩
  | conflict _ forgets =>
    left
    change List.filter _ _ = List.filter _ _
    rw [← (frame_forgets forgets).outbox]
  | refuse _ forgets =>
    left
    change List.filter _ _ = List.filter _ _
    rw [← (frame_forgets forgets).outbox]
    rfl

/-- What a durable change does to the outbox: an entry is added at its end, or one leaves, or both when
an event of one's own is applied. -/
inductive Posts (e : Engine mls) (asked : UserCommand → Prop)
    (known : MessageId × Request → Response → Prop) (fresh : MessageId → Prop) (s t : Store mls) : Prop
  | same (outbox : t.outbox = s.outbox)
  | added {u v : Store mls} {id : MessageId} {request : Request}
      (origin : Originates e asked fresh s t id request) (journals : Journals u id request v)
      (before : u.outbox = s.outbox) (after : t.outbox = v.outbox)
  | answered {id : MessageId} {request : Request} {response : Response} (entry : Entry s id request)
      (answer : known (id, request) response) (completes : Completes e s id request response t)
      (outbox : t.outbox = (s.removeOutbox id).outbox)
  | applied {u : Store mls} {event : Event} {id : MessageId}
      (attempt : Entry s event.id (.appendRoomOperation event.operation))
      (origin : Originates e asked fresh s t id (.acknowledge [event.id] []))
      (journals : Journals u id (.acknowledge [event.id] []) t)
      (before : u.outbox = (s.removeOutbox event.id).outbox)

theorem posts_of_commits (commits : Commits e asked known fresh s t) :
    Posts e asked known fresh s t := by
  cases commits with
  | contact _ _ => exact .same frame_insertContact.outbox
  | command issued orders new journals => exact .added (.command issued orders new) journals rfl rfl
  | intent _ _ inserted =>
    obtain ⟨-, rfl⟩ := insertIntent_rest inserted
    exact .same rfl
  | name named => exact .same (frame_upsertRoom named).outbox
  | complete entry answer completes =>
    rcases outbox_of_completes completes with removed | ⟨same, -⟩
    · exact .answered entry answer completes removed
    · exact .same same
  | receive _ _ _ _ _ _ stores =>
    obtain ⟨_, -, -, -, rfl⟩ := stores_cases stores
    exact .same rfl
  | attempt planned idle new group _ builds journals =>
    exact .added (.attempt planned idle new group builds journals rfl) journals
      (frame_builds builds).outbox rfl
  | welcomes _ _ _ => exact .same rfl
  | suspend _ _ => exact .same rfl
  | join pending _ joins =>
    obtain ⟨u, w, -, -, placed, journals⟩ := joins_rest joins
    exact .added (.joined pending rfl) journals (by rw [placed]) rfl
  | settle ready settles =>
    cases settles with
    | apply applies finishes =>
      rcases applies_cases applies with ⟨-, frame⟩ | ⟨-, attempt, releases⟩
      · exact .added (.settled rfl ready) finishes.2 frame.outbox rfl
      · exact .applied attempt (.settled rfl ready) finishes.2 releases.outbox
    | block _ => exact .same rfl
    | reject _ _ finishes => exact .added (.settled rfl ready) finishes.2 rfl rfl

theorem carries_origin (commits : Commits e asked known fresh s t) (held : Carries t id request) :
    Carries s id request ∨ Originates e asked fresh s t id request := by
  cases posts_of_commits commits with
  | same outbox => exact .inl ((Carries.congr outbox).mp held)
  | added origin journals before after =>
    rcases (journals_carries journals).mp ((Carries.congr after).mp held) with old | ⟨rfl, rfl⟩
    · exact .inl ((Carries.congr before).mp old)
    · exact .inr origin
  | answered _ _ _ outbox => exact .inl (carries_removeOutbox.mp ((Carries.congr outbox).mp held)).2
  | applied _ origin journals before =>
    rcases (journals_carries journals).mp held with old | ⟨rfl, rfl⟩
    · exact .inl (carries_removeOutbox.mp ((Carries.congr before).mp old)).2
    · exact .inr origin

end Grotto.Client.Outbox
