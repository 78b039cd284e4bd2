/- GID: Grotto/Network/Answers
   digest: Every answer to an entry of the outbox is one that the client handles. -/

import Grotto.Network.Mirror

set_option autoImplicit false

namespace Grotto.Network.Answers

open Format.Varint (Bytes)
open Protocol.Records Protocol.Wire Protocol.Transcripts
open Protocol.Sizes
open Client.Library Client.Calls Client.Delivery
open Client.Changes Client.Frames
open Client.Machine
open Model Ledger Mirror
open Relay.Storage (Db)
open Relay.Deliver (deliver)
open Relay.Invariant (Valid)
open Relay.Idempotence (unlessFault)

variable {mls : Mls}

section Arms

/-- The arms of `Engine::complete` before the last one, with what each of them does. -/
inductive Arm (e : Engine mls) (id : MessageId) : Request → Response → Service mls Unit → Prop
  | create {name : String} {room : RoomId} :
      Arm e id (.createRoom name) (.roomCreated room) (completeCreation e id name room)
  | publish {packages : List Bytes} {count : UInt64} (all : count.toNat = packages.length) :
      Arm e id (.publishKeyPackages packages) (.keyPackagesPublished count)
        (update fun s => s.removeOutbox id)
  | grant {requester : UserId} {allowed : Bool} :
      Arm e id (.setFetchGrant requester allowed) .fetchGrantSet (update fun s => s.removeOutbox id)
  | reserve {recipient actual : UserId} {package : Bytes} (same : recipient = actual) :
      Arm e id (.reserveKeyPackage recipient) (.keyPackage actual package)
        (completeReservation id recipient package)
  | accept {operation : Append} {event : Event} (own : event.id = id) (mine : event.sender = e.user)
      (same : event.operation = operation) :
      Arm e id (.appendRoomOperation operation) (.appendAccepted event) (receive event)
  | conflict {operation : Append} {room : RoomId} {head : UInt64} (here : room = operation.room)
      (moved : head ≠ operation.parent) :
      Arm e id (.appendRoomOperation operation) (.headConflict room head)
        (completeConflict id operation)
  | retain {request : Request} {reason : Rejection} (passing : isPassing reason = true) :
      Arm e id request (.rejected reason) (pure ())
  | refuse {request : Request} {reason : Rejection} (lasting : isPassing reason = false) :
      Arm e id request (.rejected reason) (completeRejection id request)
  | acknowledge {events : List MessageId} {welcomes : List UInt64} :
      Arm e id (.acknowledge events welcomes) .acknowledged (update fun s => s.removeOutbox id)

variable {e : Engine mls} {id : MessageId} {request : Request} {response : Response}

theorem Arm.complete_eq {body : Service mls Unit} (arm : Arm e id request response body) :
    complete e id request response = body := by
  cases arm with
  | create | grant | acknowledge => rfl
  | publish all => exact if_pos all
  | reserve same => exact if_pos same
  | @accept operation event own mine same =>
    obtain ⟨_, _, _⟩ := event
    subst own mine same
    exact if_pos rfl
  | conflict here moved => exact if_pos ⟨here, moved⟩
  | @retain _ reason passing =>
    cases reason with
    | quota | overloaded | internal => rfl
    | _ => cases passing
  | @refuse _ reason lasting =>
    cases reason with
    | quota | overloaded | internal => cases lasting
    | _ => rfl

theorem arm_rejected (reason : Rejection) : ∃ body, Arm e id request (.rejected reason) body := by
  cases passing : isPassing reason with
  | true => exact ⟨_, .retain passing⟩
  | false => exact ⟨_, .refuse passing⟩

theorem arm_of_fits (fits : Fits e.user id request response) : ∃ body, Arm e id request response body := by
  cases fits with
  | rejected reason => exact arm_rejected reason
  | acknowledged => exact ⟨_, .acknowledge⟩
  | conflict moved => exact ⟨_, .conflict rfl moved⟩
  | created => exact ⟨_, .create⟩
  | published all => exact ⟨_, .publish all⟩
  | granted => exact ⟨_, .grant⟩
  | reserved => exact ⟨_, .reserve rfl⟩
  | accepted => exact ⟨_, .accept rfl rfl rfl⟩

end Arms

section Receipts

variable {db : Db} {user : UserId} {events : List MessageId} {welcomes : List UInt64}

theorem acknowledge_receipt {sha256 : Hash} (valid : Valid sha256 db)
    (receipt : Receipt db user events welcomes) :
    Relay.Deliver.acknowledge db user events welcomes = .ok .acknowledged := by
  cases receipt with
  | @event event logged =>
    obtain ⟨⟨row, present, holds⟩, subscribed⟩ := logged
    have known : Relay.Deliver.acknowledgeEvent db user event.id = true := by
      refine List.any_eq_true.mpr ⟨row, present, decide_eq_true ⟨holds.id.symm, ?_⟩⟩
      rw [← holds.room]
      exact subscribed
    simp [Relay.Deliver.acknowledge, Relay.Deliver.acknowledgeWelcomes, known, pageSize]
  | @welcome welcome invited =>
    obtain ⟨row, present, mine, cursor, -⟩ := invited
    have bound := valid.welcomes.cursor_le present
    have known : (db.deliveryWelcomes.any fun w =>
        w.cursor = row.cursor ∧ w.recipient = user) = true :=
      List.any_eq_true.mpr ⟨row, present, decide_eq_true ⟨rfl, mine⟩⟩
    rw [cursor]
    simp only [Relay.Deliver.acknowledge, Relay.Deliver.acknowledgeWelcomes,
      toNat_ofNat_i64 bound, Relay.Storage.bindU64, if_pos bound, bind, Except.bind, known]
    rfl

theorem receipt_single (receipt : Receipt db user events welcomes) :
    events.length + welcomes.length = 1 := by
  cases receipt with
  | event _ => rfl
  | welcome _ => rfl

theorem deliver_receipt {sha256 : Hash} {here : Relay.Storage.Surroundings} (valid : Valid sha256 db)
    (receipt : Receipt db user events welcomes)
    (unused : db.savedRequest user (acknowledgementId sha256 user events welcomes) = none)
    {wire : Bytes} (encoded : encodeMessage (Request.acknowledge events welcomes) = .ok wire) :
    (deliver sha256 here db user (acknowledgementId sha256 user events welcomes)
      (.acknowledge events welcomes)).1 = unlessFault here (.ok .acknowledged) := by
  unfold unlessFault
  cases fault : here.fault with
  | some error =>
    unfold deliver
    rw [fault]
  | none =>
    have kept : encodeMessage Response.acknowledged = .ok _ := encodeMessage_of_le (by decide)
    have admitted : Relay.Deliver.receiptValid sha256 user
        (acknowledgementId sha256 user events welcomes) (.acknowledge events welcomes) = true :=
      decide_eq_true ⟨receipt_single receipt, rfl⟩
    have executed : Relay.Deliver.execute here db user
        (acknowledgementId sha256 user events welcomes) (.acknowledge events welcomes) =
          .ok (.acknowledged, db) :=
      congrArg (Except.map fun response => (response, db)) (acknowledge_receipt valid receipt)
    rw [Relay.Steps.deliver_settled sha256 fault encoded unused admitted rfl executed rfl
      ⟨rfl, fun _ => rfl⟩ kept]

end Receipts

section Answers

variable {d : Deployment mls} {s : System mls} {past : List (System mls)} {user : UserId}
variable {e : Engine mls} {id : MessageId} {request : Request}

theorem receipt_answered (joint : Joint d s) (mirrors : Mirrors d s user)
    (runs : d.engine user = some e) {events : List MessageId} {welcomes : List UInt64}
    (carried : Carries (s.clients user).store id (.acknowledge events welcomes))
    (here : Relay.Storage.Surroundings) :
    (deliver d.sha256 here s.relay user id (.acknowledge events welcomes)).1 =
      unlessFault here (.ok .acknowledged) := by
  obtain ⟨named, receipt⟩ := mirrors.receipts id events welcomes carried
  have accounts := joint.accounts user e runs
  cases saved : s.relay.savedRequest user id with
  | none =>
    subst named
    obtain ⟨row, -, -, encodes⟩ := carried
    obtain ⟨wire, encoded⟩ := encode_of_delivery encodes
    exact deliver_receipt joint.valid receipt saved encoded
  | some row =>
    obtain ⟨request, response, sent, booked⟩ := accounts.journal id row saved
    obtain rfl := accounts.current id _ request carried sent booked.durable
    rw [booked.saved.replay here, booked.settles.2 rfl]

/-- In every state of a run, an entry of a client's outbox is a durable request, whatever the relay
answers to it, for the first time or again, has its arm in `complete`, and a receipt is
acknowledged. -/
theorem answers_have_arms (run : Run d s past) (runs : d.engine user = some e)
    (carried : Carries (s.clients user).store id request) (here : Relay.Storage.Surroundings) :
    request.isRead = false ∧
    (∀ response, (deliver d.sha256 here s.relay user id request).1 = .ok response →
      ∃ body, Arm e id request response body ∧ complete e id request response = body) ∧
    (∀ events welcomes, request = .acknowledge events welcomes →
      (deliver d.sha256 here s.relay user id request).1 = unlessFault here (.ok .acknowledged)) := by
  have joint := joint_run run
  have mirrors := mirrors_run run runs
  have accounts := joint.accounts user e runs
  have durable := mirrors.durable id request carried
  refine ⟨durable, fun response answer => ?_, ?_⟩
  · have told := accounts.answer joint.valid
      (fun other sent lasting _ => accounts.current id request other carried sent lasting) answer
    have armed : ∃ body, Arm e id request response body := by
      cases told with
      | booked booked =>
        have fits := booked.fits
        rw [← d.named user e runs] at fits
        exact arm_of_fits fits
      | transient _ => exact arm_rejected _
      | receipt _ => exact arm_rejected _
      | page read _ =>
        rw [durable] at read
        cases read
    obtain ⟨body, arm⟩ := armed
    exact ⟨body, arm, arm.complete_eq⟩
  · rintro events welcomes rfl
    exact receipt_answered joint mirrors runs carried here

def spoken : Scene Client.Cleartext.mls :=
  ((settled [sampleUser 1]).turn [sampleUser 1] (sampleUser 1)
      (.command (.sendRoomMessage soleRoom [104])) [sampleId 4] []
    |>.turn [sampleUser 1] (sampleUser 1) (.drive 9)
      [sampleId 5, sampleId 6, sampleId 7, sampleId 8, sampleId 9, sampleId 10] [])

theorem run_spoken : Run (among [sampleUser 1]) spoken.1 spoken.2 :=
  ((run_settled _).turn _ _ _ _).turn _ _ _ _

theorem carries_spoken : Carries (spoken.1.clients (sampleUser 1)).store
    (acknowledgementId trailingBytes (sampleUser 1) [sampleId 7] []) (.acknowledge [sampleId 7] []) := by
  have entries : ((spoken.1.clients (sampleUser 1)).store.outbox.map fun row =>
      (row.requestId, Except.ok row.message)) =
      [(acknowledgementId trailingBytes (sampleUser 1) [sampleId 7] [], encodeMessage
        (ClientMessage.delivery (acknowledgementId trailingBytes (sampleUser 1) [sampleId 7] [])
          (.acknowledge [sampleId 7] [])))] := by
    decide +kernel
  obtain ⟨row, present, same⟩ := List.mem_map.mp (entries.symm ▸ List.mem_cons_self)
  exact ⟨row, present, congrArg Prod.fst same, (congrArg Prod.snd same).symm⟩

theorem answers_have_arms_spoken :
    (deliver trailingBytes Relay.Deliver.idle spoken.1.relay (sampleUser 1)
      (acknowledgementId trailingBytes (sampleUser 1) [sampleId 7] [])
      (.acknowledge [sampleId 7] [])).1 = .ok .acknowledged :=
  (answers_have_arms run_spoken rfl carries_spoken Relay.Deliver.idle).2.2 _ _ rfl

end Answers

end Grotto.Network.Answers
