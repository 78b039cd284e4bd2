/- GID: Grotto/Network/Provenance
   digest: Whose request an event of the log is, and which identifiers a client can still give out. -/

import Grotto.Network.Mirror

set_option autoImplicit false

namespace Grotto.Network.Provenance

open Protocol.Records Protocol.Wire Protocol.Transcripts
open Client.Library Client.Tables Client.Delivery Client.Changes
open Client.Frames Client.Machine
open Model Ledger Mirror
open Relay.Storage (Db EventRow)
open Relay.Log (Extends)

variable {mls : Mls} {d : Deployment mls} {s t : System mls} {past : List (System mls)}
variable {user : UserId} {e : Engine mls}

section Events

theorem booked_of_told {sha256 : Hash} {db : Db} {id : MessageId} {request : Request}
    {response : Response} (told : Told sha256 db user id request response)
    (durable : request.isRead = false) (receipt : request.isAcknowledge = false)
    (lasting : ∀ reason, response = .rejected reason → isPassing reason = false) :
    Booked sha256 db user id request response := by
  cases told with
  | booked booked => exact booked
  | transient passing =>
    rw [lasting _ rfl] at passing
    cases passing
  | receipt acknowledges =>
    rw [receipt] at acknowledges
    cases acknowledges
  | page read _ =>
    rw [durable] at read
    cases read

theorem booked_of_logged (joint : Joint d s) (runs : d.engine user = some e) {row : EventRow}
    (logged : row ∈ s.relay.deliveryEvents) (drawn : (user, row.eventId) ∈ s.drawn) :
    ∃ operation, Relay.Invariant.Holds row ⟨row.eventId, user, operation⟩ ∧
      (user, row.eventId, .appendRoomOperation operation) ∈ s.sent ∧
      Booked d.sha256 s.relay user row.eventId (.appendRoomOperation operation)
        (.appendAccepted ⟨row.eventId, user, operation⟩) := by
  have sender := joint.owned user _ drawn row logged rfl
  obtain ⟨event, holds⟩ := joint.valid.log.records row logged
  obtain ⟨entry, listed, owner, named, decoded⟩ :=
    joint.valid.journal.accepted row logged event holds
  have saved := joint.valid.journal.savedRequest_of_mem entry listed
  rw [owner, named, holds.id, holds.sender, sender] at saved
  obtain ⟨request, response, sent, booked⟩ :=
    (joint.accounts user e runs).journal row.eventId entry saved
  obtain ⟨found, wire, same, -, -, read⟩ := booked.saved
  rw [saved] at same
  obtain rfl := Option.some.inj same
  obtain rfl := Except.ok.inj (decoded.symm.trans read)
  generalize answer : Response.appendAccepted event = response at booked
  have fits := booked.fits
  cases fits with
  | accepted =>
    cases answer
    exact ⟨_, holds, sent, booked⟩
  | _ => cases answer

theorem own_event (joint : Joint d s) (mirrors : Mirrors d s user) (runs : d.engine user = some e)
    {id : MessageId} {operation : Append} {row : InboxRow}
    (carries : Carries (s.clients user).store id (.appendRoomOperation operation))
    (present : row ∈ (s.clients user).store.deliveryInbox) (named : row.eventId = id) :
    encodeMessage (⟨id, user, operation⟩ : Event) = .ok row.record := by
  have accounts := joint.accounts user e runs
  obtain ⟨event, ⟨⟨log, logged, holds⟩, -⟩, encodes, shape⟩ := mirrors.inbox row present
  have same : log.eventId = id := by
    rw [← holds.id, ← named, shape]
    rfl
  have drawn : (user, id) ∈ s.drawn := by
    rcases accounts.entries id _ carries with receipt | drawn
    · cases receipt
    · exact drawn
  obtain ⟨found, own, sent, -⟩ := booked_of_logged joint runs logged (by rw [same]; exact drawn)
  rw [same] at own sent
  cases accounts.current id _ _ carries sent rfl
  rw [← holds.unique own]
  exact encodes

end Events

section Identifiers

theorem drawn_mono (run : Run d s past) : ∀ state ∈ s :: past, state.drawn ⊆ s.drawn := by
  induction run with
  | start =>
    intro state listed
    obtain rfl := List.mem_singleton.mp listed
    exact List.Subset.refl _
  | @step s t past action before taken apart ih =>
    have grown : s.drawn ⊆ t.drawn := by
      cases step_steps taken with
      | client => exact List.subset_append_right _ _
      | post | fail | execute => exact List.Subset.refl _
    intro state listed
    rcases List.mem_cons.mp listed with rfl | earlier
    · exact List.Subset.refl _
    · exact List.Subset.trans (ih state earlier) grown

def EverPlanned (states : List (System mls)) (user : UserId) (intent : MessageId) : Prop :=
  ∃ state ∈ states, ∃ row ∈ (state.clients user).store.deliveryIntents, row.id = intent

/-- The identifiers a client has drawn and not used: nothing durable went out under them, and no
intent was ever called so. -/
structure Unspent (s : System mls) (past : List (System mls)) (user : UserId) (id : MessageId) :
    Prop where
  drawn : (user, id) ∈ s.drawn
  unsent : ∀ request, (user, id, request) ∈ s.sent → request.isRead = true
  unplanned : ¬EverPlanned (s :: past) user id

theorem planned_drawn (run : Run d s past) (runs : d.engine user = some e) {intent : MessageId}
    (planned : EverPlanned (s :: past) user intent) : (user, intent) ∈ s.drawn := by
  induction run with
  | start =>
    obtain ⟨state, listed, row, present, -⟩ := planned
    obtain rfl := List.mem_singleton.mp listed
    cases present
  | @step s t past action before taken apart ih =>
    have grown : s.drawn ⊆ t.drawn :=
      drawn_mono (.step before taken apart) s (List.mem_cons_of_mem _ List.mem_cons_self)
    obtain ⟨state, listed, row, present, rfl⟩ := planned
    rcases List.mem_cons.mp listed with rfl | earlier
    · exact ((joint_run (.step before taken apart)).accounts user e runs).intents row present
    · exact grown (ih ⟨state, earlier, row, present, rfl⟩)

theorem unspent_run (run : Run d s past) (runs : d.engine user = some e) :
    ∃ fresh, Governed e Uses fresh (s.clients user) ∧ ∀ id, fresh id → Unspent s past user id := by
  induction run with
  | start => exact ⟨fun _ => False, governed_off _ nofun, nofun⟩
  | @step s t past action before taken apart ih =>
    obtain ⟨fresh, governed, pool⟩ := ih
    -- A state with the same client, whatever else was drawn or executed.
    have idle : ∀ {t : System mls}, s.drawn ⊆ t.drawn → t.clients user = s.clients user →
        (∀ id, fresh id → ∀ request, (user, id, request) ∈ t.sent → request.isRead = true) →
        ∃ fresh, Governed e Uses fresh (t.clients user) ∧
          ∀ id, fresh id → Unspent t (s :: past) user id := by
      intro t drawn clients unsent
      rw [clients]
      refine ⟨fresh, governed, fun id new => ⟨drawn (pool id new).drawn, unsent id new, ?_⟩⟩
      rintro ⟨state, listed, row, present, named⟩
      rcases List.mem_cons.mp listed with rfl | earlier
      · rw [clients] at present
        exact (pool id new).unplanned ⟨s, List.mem_cons_self, row, present, named⟩
      · exact (pool id new).unplanned ⟨state, earlier, row, present, named⟩
    have accounts := (joint_run before).accounts user e runs
    cases step_steps taken with
    | @client mover engine move c runs' taken new answered =>
      by_cases same : user = mover
      · subst same
        rw [runs] at runs'
        obtain rfl := Option.some.inj runs'
        have now : (s.setClient user c).clients user = c := Function.update_self _ _ _
        have unused := accounts.unused runs taken new apart
        obtain ⟨governed', -⟩ := governed_step governed unused taken
        refine ⟨freshAfter Uses fresh move c, by rw [now]; exact governed', fun id left => ?_⟩
        have unplanned : ¬EverPlanned (s :: past) user id := by
          rcases left.1 with old | rfl
          · exact (pool id old).unplanned
          · exact fun planned => isNew_undrawn (new id rfl) (planned_drawn before runs planned)
        refine ⟨?_, ?_, ?_⟩
        · rcases left.1 with old | rfl
          · exact List.mem_append_right _ (pool id old).drawn
          · exact List.mem_append_left _ List.mem_cons_self
        · rcases left.1 with old | rfl
          · exact (pool id old).unsent
          · exact fun request sent => absurd sent (isNew_unsent (new id rfl))
        rintro ⟨state, listed, row, present, named⟩
        rcases List.mem_cons.mp listed with rfl | earlier
        · rw [now] at present
          exact left.2 (.inr ⟨row, present, named⟩)
        · exact unplanned ⟨state, earlier, row, present, named⟩
      · exact idle (List.subset_append_right _ _) (Function.update_of_ne same _ _)
          fun id new => (pool id new).unsent
    | @post mover engine query rest runs' asking =>
      refine idle (List.Subset.refl _) rfl fun id new request sent => ?_
      rcases List.mem_cons.mp sent with same | old
      · cases same
        rcases governed.sends asking with ⟨row, present, named, -⟩ | read
        · exact absurd (.inl ⟨row, present, named⟩) (governed.unused id new)
        · exact read
      · exact (pool id new).unsent request old
    | fail _ _ => exact idle (List.Subset.refl _) rfl fun id new => (pool id new).unsent
    | execute _ _ => exact idle (List.Subset.refl _) rfl fun id new => (pool id new).unsent

/-- What one action of the system is to a client: a durable change of its own, or nothing in its
tables while the relay may grow. -/
inductive Turn (e : Engine mls) (s : System mls) (past : List (System mls)) (user : UserId)
    (t : System mls) : Prop
  | elsewhere (store : (t.clients user).store = (s.clients user).store)
      (grown : Extends s.relay t.relay)
  | own {fresh : MessageId → Prop} (pool : ∀ id, fresh id → Unspent s past user id)
      (commits : Commits e (s.clients user).asked (s.clients user).known fresh
        (s.clients user).store (t.clients user).store) (relay : t.relay = s.relay)

theorem turn_of_step {action : Action mls} (before : Run d s past) (runs : d.engine user = some e)
    (taken : s.step d action = some t) (apart : ReceiptsApart d t) : Turn e s past user t := by
  cases step_steps taken with
  | @client mover engine move c runs' taken new answered =>
    by_cases same : user = mover
    · subst same
      rw [runs] at runs'
      obtain rfl := Option.some.inj runs'
      have now : (s.setClient user c).clients user = c := Function.update_self _ _ _
      obtain ⟨fresh, governed, pool⟩ := unspent_run before runs
      have accounts := (joint_run before).accounts user e runs
      rcases (governed_step governed (accounts.unused runs taken new apart) taken).2 with
        kept | commits
      · exact .elsewhere ((congrArg Process.store now).trans kept) (Extends.refl _)
      · exact .own pool (by rw [now]; exact commits) rfl
    · exact .elsewhere (congrArg _ (Function.update_of_ne same _ _)) (Extends.refl _)
  | post _ _ => exact .elsewhere rfl (Extends.refl _)
  | fail _ _ => exact .elsewhere rfl (Relay.Log.extends_deliver _ _ _ _ _ _)
  | execute _ _ => exact .elsewhere rfl (Relay.Log.extends_deliver _ _ _ _ _ _)

theorem Turn.grown (turn : Turn e s past user t) : Extends s.relay t.relay := by
  cases turn with
  | elsewhere _ grown => exact grown
  | own _ _ relay =>
    rw [relay]
    exact Extends.refl _

end Identifiers

end Grotto.Network.Provenance
