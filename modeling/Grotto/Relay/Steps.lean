/- GID: Grotto/Relay/Steps
   digest: What one executed request writes and what one delivery call can do. -/

import Grotto.Relay.Deliver

set_option autoImplicit false

namespace Grotto.Relay.Steps

open Format.Varint (Bytes)
open Protocol.Records Protocol.Wire Protocol.Transcripts
open Storage Deliver

def eventRow (user : UserId) (id : MessageId) (operation : Append) (record : Bytes) : EventRow :=
  ⟨operation.room, operation.parent.toNat + 1, id, user, record⟩

/-- The Welcome an accepted operation publishes, before its row has a cursor. -/
def welcomeOf (name : String) (user : UserId) (id : MessageId) (operation : Append)
    (welcome : WelcomeAttachment) : WelcomeDelivery :=
  ⟨name, 0, id, operation.room, UInt64.ofNat (operation.parent.toNat + 1), user, welcome⟩

/-- The checks an operation has passed once its event is in the log. -/
structure Accepts (db : Db) (user : UserId) (id : MessageId) (operation : Append)
    (record : Bytes) : Prop where
  subscribed : db.isSubscribed operation.room user = true
  admissible : inadmissible operation = false
  atHead : db.head operation.room = operation.parent.toNat
  fresh : db.hasEvent id = false
  encoded : encodeMessage (⟨id, user, operation⟩ : Event) = .ok record

inductive Writes (db : Db) (user : UserId) (id : MessageId) : Request → Response → Db → Prop
  | rejected {request : Request} (reason : Rejection) : Writes db user id request (.rejected reason) db
  | read {request : Request} {response : Response} (read : request.isRead = true) :
      Writes db user id request response db
  | acknowledged {events : List MessageId} {welcomes : List UInt64} :
      Writes db user id (.acknowledge events welcomes) .acknowledged db
  | conflict {operation : Append} (stale : db.head operation.room ≠ operation.parent.toNat) :
      Writes db user id (.appendRoomOperation operation)
        (.headConflict operation.room (UInt64.ofNat (db.head operation.room))) db
  | room {name normalized : String} {room : RoomId} (normal : normalizeRoomName name = .ok normalized)
      (fresh : ∀ r ∈ db.rooms, r.roomId ≠ room) :
      Writes db user id (.createRoom name) (.roomCreated room)
        (Db.subscribe { db with rooms := db.rooms ++ [⟨room, normalized, user⟩] } room user)
  | packages {packages : List Bytes}
      (sized : ∀ p ∈ packages, p ≠ [] ∧ p.length ≤ maxKeyPackageBytes) (few : packages.length ≤ 64) :
      Writes db user id (.publishKeyPackages packages)
        (.keyPackagesPublished (UInt64.ofNat packages.length))
        { db with keyPackages := db.keyPackages ++ packages.map (KeyPackageRow.mk user) }
  | granted {requester : UserId} :
      Writes db user id (.setFetchGrant requester true) .fetchGrantSet
        (if db.isGranted user requester then db
          else { db with fetchGrants := db.fetchGrants ++ [(user, requester)] })
  | revoked {requester : UserId} :
      Writes db user id (.setFetchGrant requester false) .fetchGrantSet
        { db with fetchGrants := db.fetchGrants.filter fun row => row ≠ (user, requester) }
  | reserved {recipient : UserId} {row : KeyPackageRow} {time : Int}
      (granted : db.isGranted recipient user = true)
      (found : db.keyPackages.find? (fun row => row.userId = recipient) = some row) :
      Writes db user id (.reserveKeyPackage recipient) (.keyPackage recipient row.keyPackage)
        { db with
          keyPackages := db.keyPackages.eraseP fun row => row.userId = recipient
          packageAllocations := db.packageAllocations ++ [⟨user, recipient, time⟩] }
  | event {operation : Append} {record : Bytes} (accepts : Accepts db user id operation record)
      (plain : operation.welcome = none) :
      Writes db user id (.appendRoomOperation operation) (.appendAccepted ⟨id, user, operation⟩)
        { db with deliveryEvents := db.deliveryEvents ++ [eventRow user id operation record] }
  | invitation {operation : Append} {record stored : Bytes} {welcome : WelcomeAttachment}
      {room : RoomRow} (accepts : Accepts db user id operation record)
      (attached : operation.welcome = some welcome)
      (found : db.rooms.find? (fun r => r.roomId = operation.room) = some room)
      (space : db.lastCursor + 1 ≤ i64Max)
      (kept : encodeMessage (welcomeOf room.name user id operation welcome) = .ok stored) :
      Writes db user id (.appendRoomOperation operation) (.appendAccepted ⟨id, user, operation⟩)
        (Db.subscribe
          { db with
            deliveryEvents := db.deliveryEvents ++ [eventRow user id operation record]
            deliveryWelcomes := db.deliveryWelcomes ++
              [⟨db.lastCursor + 1, welcome.recipient, stored⟩] }
          operation.room welcome.recipient)

variable {bytes : Bytes}

theorem encodeStored_ok {α : Type} [Serde α] {value : α} :
    encodeStored value = .ok bytes ↔ encodeMessage value = .ok bytes := by
  unfold encodeStored
  cases encodeMessage value <;> simp [Except.mapError]

theorem decodeStored_ok {α : Type} [Serde α] {value : α} :
    decodeStored α bytes = .ok value ↔ decodeMessage α bytes = .ok value := by
  unfold decodeStored
  cases decodeMessage α bytes <;> simp [Except.mapError]

variable {db next : Db} {user : UserId} {id : MessageId} {request : Request} {response : Response}

private theorem reject_writes {reason : Rejection}
    (done : reject db reason = .ok (response, next)) : Writes db user id request response next := by
  obtain ⟨rfl, rfl⟩ := Prod.mk.inj (Except.ok.inj done)
  exact .rejected reason

variable {here : Surroundings}

private theorem createRoom_writes {name : String}
    (done : createRoom here db user name = .ok (response, next)) :
    Writes db user id (.createRoom name) response next := by
  unfold createRoom at done
  split at done
  · exact reject_writes done
  rename_i normalized normal
  split at done
  · exact reject_writes done
  split at done
  · simp at done
  rename_i room _
  unfold Db.insertRoom at done
  split at done
  · simp [bind, Except.bind] at done
  rename_i fresh
  simp only [bind, Except.bind, Except.ok.injEq, Prod.mk.injEq] at done
  obtain ⟨rfl, rfl⟩ := done
  refine .room normal fun r member same => fresh ?_
  simpa using ⟨r, member, same⟩

private theorem publishKeyPackages_writes {packages : List Bytes}
    (done : publishKeyPackages db user packages = .ok (response, next)) :
    Writes db user id (.publishKeyPackages packages) response next := by
  unfold publishKeyPackages at done
  split at done
  · exact reject_writes done
  rename_i valid
  split at done
  · exact reject_writes done
  · obtain ⟨rfl, rfl⟩ := Prod.mk.inj (Except.ok.inj done)
    push Not at valid
    exact .packages valid.2.2.1 valid.2.1

private theorem setFetchGrant_writes {user requester : UserId} {allowed : Bool}
    (done : setFetchGrant db user requester allowed = .ok (response, next)) :
    Writes db user id (.setFetchGrant requester allowed) response next := by
  cases allowed with
  | true =>
    obtain ⟨rfl, rfl⟩ := Prod.mk.inj (Except.ok.inj done)
    exact .granted
  | false =>
    obtain ⟨rfl, rfl⟩ := Prod.mk.inj (Except.ok.inj done)
    exact .revoked

private theorem reserveKeyPackage_writes {user recipient : UserId}
    (done : reserveKeyPackage here db user recipient = .ok (response, next)) :
    Writes db user id (.reserveKeyPackage recipient) response next := by
  unfold reserveKeyPackage at done
  split at done
  · exact reject_writes done
  rename_i granted
  dsimp only at done
  split at done
  · exact reject_writes done
  split at done
  · exact reject_writes done
  · rename_i row found
    obtain ⟨rfl, rfl⟩ := Prod.mk.inj (Except.ok.inj done)
    exact .reserved (by simpa using granted) found

theorem insertEvent_ok {row : EventRow} (done : db.insertEvent row = .ok next) :
    next = { db with deliveryEvents := db.deliveryEvents ++ [row] } := by
  unfold Db.insertEvent bindU64 at done
  split at done
  · simp only [bind, Except.bind] at done
    split at done
    · simp at done
    · exact (Except.ok.inj done).symm
  · simp [bind, Except.bind] at done

private theorem publishWelcome_ok {operation : Append} {welcome : WelcomeAttachment}
    (done : publishWelcome db user id operation.room (operation.parent.toNat + 1) welcome = .ok next) :
    ∃ room stored, db.rooms.find? (fun r => r.roomId = operation.room) = some room ∧
      db.lastCursor + 1 ≤ i64Max ∧
      encodeMessage (welcomeOf room.name user id operation welcome) = .ok stored ∧
      next = Db.subscribe
        { db with
          deliveryWelcomes := db.deliveryWelcomes ++
            [⟨db.lastCursor + 1, welcome.recipient, stored⟩] }
        operation.room welcome.recipient := by
  unfold publishWelcome at done
  split at done
  · simp at done
  rename_i room found
  simp only [bind, Except.bind] at done
  split at done
  · simp at done
  rename_i stored kept
  unfold Db.insertWelcome at done
  split at done
  · simp at done
  rename_i space
  split at space
  · rename_i small
    obtain rfl := Except.ok.inj space
    exact ⟨room, stored, found, small, encodeStored_ok.mp kept, (Except.ok.inj done).symm⟩
  · simp at space

private theorem appendRoomOperation_writes {operation : Append}
    (done : appendRoomOperation db user id operation = .ok (response, next)) :
    Writes db user id (.appendRoomOperation operation) response next := by
  unfold appendRoomOperation at done
  split at done
  · exact reject_writes done
  rename_i subscribed
  split at done
  · exact reject_writes done
  rename_i admissible
  dsimp only at done
  split at done
  · rename_i stale
    obtain ⟨rfl, rfl⟩ := Prod.mk.inj (Except.ok.inj done)
    exact .conflict stale
  rename_i atHead
  split at done
  · exact reject_writes done
  rename_i fresh
  simp only [bind, Except.bind] at done
  split at done
  · simp at done
  rename_i record encoded
  split at done
  · simp at done
  rename_i inserted insertion
  have atHead : db.head operation.room = operation.parent.toNat := not_not.mp atHead
  rw [atHead] at insertion
  obtain rfl := insertEvent_ok insertion
  have accepts : Accepts db user id operation record :=
    ⟨by simpa using subscribed, by simpa using admissible, atHead,
      by simpa using fresh, encodeStored_ok.mp encoded⟩
  split at done
  · rename_i plain
    obtain ⟨rfl, rfl⟩ := Prod.mk.inj (Except.ok.inj done)
    exact .event accepts plain
  rename_i welcome attached
  split at done
  · simp at done
  rename_i published publication
  rw [atHead] at publication
  obtain ⟨rfl, rfl⟩ := Prod.mk.inj (Except.ok.inj done)
  obtain ⟨room, stored, found, space, kept, rfl⟩ := publishWelcome_ok publication
  exact .invitation accepts attached found space kept

theorem map_unchanged {result : Except StorageError Response}
    (done : result.map (·, db) = .ok (response, next)) : result = .ok response ∧ next = db := by
  cases result with
  | error e => simp [Except.map] at done
  | ok value =>
    obtain ⟨rfl, rfl⟩ := Prod.mk.inj (Except.ok.inj done)
    exact ⟨rfl, rfl⟩

variable {welcomes : List UInt64}

private theorem acknowledgeWelcomes_cases
    (done : acknowledgeWelcomes db user welcomes = .ok response) :
    response = .acknowledged ∨ response = .rejected .unauthorized := by
  induction welcomes with
  | nil => exact .inl (Except.ok.inj done).symm
  | cons cursor rest ih =>
    unfold acknowledgeWelcomes bindU64 at done
    split at done
    · simp only [bind, Except.bind] at done
      split at done
      · exact ih done
      · exact .inr (Except.ok.inj done).symm
    · simp [bind, Except.bind] at done

private theorem acknowledge_writes {events : List MessageId}
    (done : acknowledge db user events welcomes = .ok response) :
    Writes db user id (.acknowledge events welcomes) response db := by
  unfold acknowledge at done
  split at done
  · obtain rfl := Except.ok.inj done
    exact .rejected _
  split at done
  · rcases acknowledgeWelcomes_cases done with rfl | rfl
    · exact .acknowledged
    · exact .rejected _
  · obtain rfl := Except.ok.inj done
    exact .rejected _

theorem execute_writes (done : execute here db user id request = .ok (response, next)) :
    Writes db user id request response next := by
  cases request with
  | createRoom name => exact createRoom_writes done
  | publishKeyPackages packages => exact publishKeyPackages_writes done
  | acknowledge events welcomes =>
    obtain ⟨result, rfl⟩ := map_unchanged done
    exact acknowledge_writes result
  | appendRoomOperation operation => exact appendRoomOperation_writes done
  | fetchRoomEvents room start =>
    obtain ⟨-, rfl⟩ := map_unchanged done
    exact .read rfl
  | syncIndex start =>
    obtain ⟨rfl, rfl⟩ := Prod.mk.inj (Except.ok.inj done)
    exact .read rfl
  | fetchWelcomes start =>
    obtain ⟨-, rfl⟩ := map_unchanged done
    exact .read rfl
  | reserveKeyPackage recipient => exact reserveKeyPackage_writes done
  | setFetchGrant requester allowed => exact setFetchGrant_writes done

def Settles (request : Request) (response : Response) : Prop :=
  isTransient response = false ∧ (request.isAcknowledge = true → response = .acknowledged)

instance (request : Request) (response : Response) : Decidable (Settles request response) := by
  unfold Settles
  infer_instance

def isPage : Response → Bool
  | .roomEvents _ _ _ _ | .syncIndex _ _ | .welcomes _ _ _ => true
  | _ => false

theorem Writes.not_page (writes : Writes db user id request response next)
    (durable : request.isRead = false) : isPage response = false := by
  cases writes with
  | read read =>
    rw [durable] at read
    exact absurd read Bool.false_ne_true
  | _ => rfl

structure Journals (sha256 : Hash) (db : Db) (user : UserId) (id : MessageId) (request : Request)
    (response : Response) (final : Db) : Prop where
  durable : request.isRead = false
  settles : Settles request response
  unused : db.savedRequest user id = none
  witness : ∃ wire bytes next sender room,
    encodeMessage request = .ok wire ∧ encodeMessage response = .ok bytes ∧
    Writes db user id request response next ∧
    final = { next with
      usageSender := sender
      usageRoom := room
      deliveryRequests := next.deliveryRequests ++ [⟨user, id, sha256 wire, bytes⟩] }

inductive Delivers (sha256 : Hash) (db : Db) (user : UserId) (id : MessageId) (request : Request) :
    Except StorageError Response → Db → Prop
  | failed (e : StorageError) : Delivers sha256 db user id request (.error e) db
  | conflicting {wire : Bytes} {row : RequestRow} (encoded : encodeMessage request = .ok wire)
      (saved : db.savedRequest user id = some row) (other : row.hash ≠ sha256 wire) :
      Delivers sha256 db user id request (.ok (.rejected .requestConflict)) db
  | replayed {wire : Bytes} {row : RequestRow} {response : Response}
      (encoded : encodeMessage request = .ok wire)
      (saved : db.savedRequest user id = some row) (same : row.hash = sha256 wire)
      (decoded : decodeMessage Response row.response = .ok response) :
      Delivers sha256 db user id request (.ok response) db
  | unsettled {reason : Rejection} (durable : request.isRead = false)
      (unused : db.savedRequest user id = none) (remains : ¬Settles request (.rejected reason)) :
      Delivers sha256 db user id request (.ok (.rejected reason)) db
  | answered {here : Surroundings} {response : Response} (read : request.isRead = true)
      (unused : db.savedRequest user id = none)
      (executed : execute here db user id request = .ok (response, db)) :
      Delivers sha256 db user id request (.ok response) db
  | settled {response : Response} {final : Db}
      (journals : Journals sha256 db user id request response final) :
      Delivers sha256 db user id request (.ok response) final

variable {final : Db}

private theorem insertRequest_ok {row : RequestRow} (done : db.insertRequest row = .ok final) :
    final = { db with deliveryRequests := db.deliveryRequests ++ [row] } := by
  unfold Db.insertRequest at done
  split at done
  · simp at done
  · exact (Except.ok.inj done).symm

theorem chargeUsage_form (db : Db) (user : UserId) (request : Request) (wire : Bytes) :
    ∃ sender room,
      chargeUsage db user request wire = { db with usageSender := sender, usageRoom := room } := by
  unfold chargeUsage
  split
  · exact ⟨db.usageSender, db.usageRoom, rfl⟩
  · exact ⟨_, _, rfl⟩

variable {hash : Digest} {wire : Bytes}

private theorem record_charged (done : record db user id request hash wire response = .ok final) :
    ∃ bytes, encodeMessage response = .ok bytes ∧
      final = { chargeUsage db user request wire with
        deliveryRequests := (chargeUsage db user request wire).deliveryRequests ++
          [⟨user, id, hash, bytes⟩] } := by
  unfold record at done
  simp only [bind, Except.bind] at done
  split at done
  · simp at done
  · rename_i bytes encoded
    exact ⟨bytes, encodeStored_ok.mp encoded, insertRequest_ok done⟩

theorem Writes.unchanged_of_transient (writes : Writes db user id request response next)
    (transient : isTransient response = true) : next = db := by
  cases writes <;> first | rfl | simp [isTransient] at transient

theorem Writes.unchanged_of_read (writes : Writes db user id request response next)
    (read : request.isRead = true) : next = db := by
  cases writes <;> first | rfl | simp [Request.isRead] at read

private theorem Writes.receipt_cases (writes : Writes db user id request response next)
    (receipt : request.isAcknowledge = true) (other : response ≠ .acknowledged) :
    ∃ reason, response = .rejected reason := by
  cases writes with
  | rejected reason => exact ⟨reason, rfl⟩
  | acknowledged => exact absurd rfl other
  | read read => cases request <;> simp_all [Request.isRead, Request.isAcknowledge]
  | _ => simp [Request.isAcknowledge] at receipt

private theorem rejected_of_transient (transient : isTransient response = true) :
    ∃ reason, response = .rejected reason := by
  cases response with
  | rejected reason => exact ⟨reason, rfl⟩
  | _ => simp [isTransient] at transient

private theorem admission_refused (done : admission here db user request = .ok false) :
    request.isRead = false ∧ request.isAcknowledge = false := by
  unfold admission at done
  split at done
  · simp at done
  · rename_i applies
    simpa using applies

variable {sha256 : Hash}

private theorem receipt_refused (refused : ¬receiptValid sha256 user id request = true) :
    request.isAcknowledge = true := by
  cases request <;> first | rfl | simp [receiptValid] at refused

private theorem isRead_of_acknowledge (receipt : request.isAcknowledge = true) :
    request.isRead = false := by
  cases request <;> first | rfl | simp [Request.isAcknowledge] at receipt

theorem Writes.requests_eq (writes : Writes db user id request response next) :
    next.deliveryRequests = db.deliveryRequests := by
  cases writes with
  | room => exact subscribe_requests _ _ _
  | invitation => exact subscribe_requests _ _ _
  | granted => split <;> rfl
  | _ => rfl

private theorem chargeUsage_requests (db : Db) (user : UserId) (request : Request) (wire : Bytes) :
    (chargeUsage db user request wire).deliveryRequests = db.deliveryRequests := by
  obtain ⟨sender, room, charged⟩ := chargeUsage_form db user request wire
  rw [charged]

structure Executes (sha256 : Hash) (here : Surroundings) (db : Db) (user : UserId) (id : MessageId)
    (request : Request) (response : Response) (final : Db) : Prop where
  working : here.fault = none
  durable : request.isRead = false
  settles : Settles request response
  unused : db.savedRequest user id = none
  admitted : admission here db user request = .ok true
  charged : ∃ wire bytes next, encodeMessage request = .ok wire ∧ encodeMessage response = .ok bytes ∧
    execute here db user id request = .ok (response, next) ∧
    final = { chargeUsage next user request wire with
      deliveryRequests := db.deliveryRequests ++ [⟨user, id, sha256 wire, bytes⟩] }

/-- A transaction that goes through has one of the forms, and changes a table only by executing. -/
private theorem perform_delivers {kept : Option Db} (working : here.fault = none)
    (encoded : encodeMessage request = .ok wire) (unused : db.savedRequest user id = none)
    (done : perform sha256 here db user id request wire = .ok (response, kept)) :
    Delivers sha256 db user id request (.ok response) (kept.getD db) ∧
      (kept.getD db = db ∨ Executes sha256 here db user id request response (kept.getD db)) := by
  unfold perform at done
  split at done
  · rename_i refused
    obtain ⟨rfl, rfl⟩ := Prod.mk.inj (Except.ok.inj done)
    have receipt := receipt_refused refused
    refine ⟨.unsettled (isRead_of_acknowledge receipt) unused fun settles => ?_, .inl rfl⟩
    cases settles.2 receipt
  split at done
  · simp at done
  · rename_i refused
    obtain ⟨rfl, rfl⟩ := Prod.mk.inj (Except.ok.inj done)
    refine ⟨.unsettled (admission_refused refused).1 unused fun settles => ?_, .inl rfl⟩
    cases settles.1
  rename_i admitted
  split at done
  · simp at done
  rename_i answer next executed
  have writes := execute_writes executed
  split at done
  · rename_i refused
    obtain ⟨rfl, rfl⟩ := Prod.mk.inj (Except.ok.inj done)
    obtain ⟨reason, rfl⟩ := writes.receipt_cases refused.1 refused.2
    exact ⟨.unsettled (isRead_of_acknowledge refused.1) unused fun settles =>
      refused.2 (settles.2 refused.1), .inl rfl⟩
  rename_i receipt
  have receipt : request.isAcknowledge = true → answer = .acknowledged := by
    intro isReceipt
    by_contra other
    exact receipt ⟨isReceipt, other⟩
  split at done
  · rename_i passing
    obtain ⟨rfl, rfl⟩ := Prod.mk.inj (Except.ok.inj done)
    obtain rfl := passing.elim writes.unchanged_of_read writes.unchanged_of_transient
    refine ⟨?_, .inl rfl⟩
    cases reads : request.isRead with
    | true => exact .answered reads unused executed
    | false =>
      have transient := passing.resolve_left (by simp [reads])
      obtain ⟨reason, rfl⟩ := rejected_of_transient transient
      refine .unsettled reads unused fun settles => ?_
      rw [settles.1] at transient
      simp at transient
  · rename_i lasting
    push Not at lasting
    split at done
    · simp at done
    rename_i final recorded
    obtain ⟨rfl, rfl⟩ := Prod.mk.inj (Except.ok.inj done)
    obtain ⟨bytes, kept, rfl⟩ := record_charged recorded
    obtain ⟨sender, room, charged⟩ := chargeUsage_form next user request wire
    have durable : request.isRead = false := by simpa using lasting.1
    have settles : Settles request answer := ⟨by simpa using lasting.2, receipt⟩
    refine ⟨.settled ⟨durable, settles, unused, wire, bytes, next, sender, room, encoded, kept, writes,
      by rw [charged]; rfl⟩, .inr ⟨working, durable, settles, unused, admitted, wire, bytes, next, encoded,
      kept, executed, ?_⟩⟩
    rw [Option.getD_some, chargeUsage_requests, writes.requests_eq]

private theorem transact_delivers {kept : Option Db} (working : here.fault = none)
    (done : transact sha256 here db user id request = .ok (response, kept)) :
    Delivers sha256 db user id request (.ok response) (kept.getD db) ∧
      (kept.getD db = db ∨ Executes sha256 here db user id request response (kept.getD db)) := by
  unfold transact at done
  split at done
  · simp at done
  rename_i wire encoded
  split at done
  · rename_i row saved
    split at done
    · rename_i other
      obtain ⟨rfl, rfl⟩ := Prod.mk.inj (Except.ok.inj done)
      exact ⟨.conflicting encoded saved other, .inl rfl⟩
    rename_i same
    cases decoded : decodeStored Response row.response with
    | error e => simp [decoded, Except.map] at done
    | ok answer =>
      rw [decoded] at done
      obtain ⟨rfl, rfl⟩ := Prod.mk.inj (Except.ok.inj done)
      exact ⟨.replayed encoded saved (not_not.mp same) (decodeStored_ok.mp decoded), .inl rfl⟩
  · rename_i unused
    exact perform_delivers working encoded unused done

private theorem deliver_cases (sha256 : Hash) (here : Surroundings) (db : Db) (user : UserId)
    (id : MessageId) (request : Request) :
    (∃ e, deliver sha256 here db user id request = (.error e, db)) ∨
    ∃ response final, deliver sha256 here db user id request = (.ok response, final) ∧
      Delivers sha256 db user id request (.ok response) final ∧
      (final = db ∨ Executes sha256 here db user id request response final) := by
  unfold deliver
  split
  · exact .inl ⟨_, rfl⟩
  rename_i working
  split
  · exact .inl ⟨_, rfl⟩
  · rename_i response done
    exact .inr ⟨response, db, rfl, transact_delivers working done⟩
  · rename_i response final done
    exact .inr ⟨response, final, rfl, transact_delivers working done⟩

theorem deliver_delivers (sha256 : Hash) (here : Surroundings) (db : Db) (user : UserId)
    (id : MessageId) (request : Request) :
    Delivers sha256 db user id request (deliver sha256 here db user id request).1
      (deliver sha256 here db user id request).2 := by
  rcases deliver_cases sha256 here db user id request with ⟨e, same⟩ | ⟨response, final, same, delivers, -⟩
  · rw [same]
    exact .failed e
  · rw [same]
    exact delivers

theorem record_eq (unused : db.savedRequest user id = none)
    (kept : encodeMessage response = .ok bytes) :
    record db user id request hash wire response = .ok
      { chargeUsage db user request wire with
        deliveryRequests := db.deliveryRequests ++ [⟨user, id, hash, bytes⟩] } := by
  obtain ⟨sender, room, charged⟩ := chargeUsage_form db user request wire
  have free : ({ db with usageSender := sender, usageRoom := room } : Db).savedRequest user id =
      none := unused
  simp only [record, encodeStored_ok.mpr kept, charged, Db.insertRequest, free, bind, Except.bind]
  rfl

theorem deliver_settled (sha256 : Hash) (working : here.fault = none)
    (encoded : encodeMessage request = .ok wire) (unused : db.savedRequest user id = none)
    (receipt : receiptValid sha256 user id request = true)
    (admitted : admission here db user request = .ok true)
    (executed : execute here db user id request = .ok (response, next))
    (durable : request.isRead = false) (settles : Settles request response)
    (kept : encodeMessage response = .ok bytes) :
    deliver sha256 here db user id request = (.ok response,
      { chargeUsage next user request wire with
        deliveryRequests := db.deliveryRequests ++ [⟨user, id, sha256 wire, bytes⟩] }) := by
  have same := (execute_writes executed).requests_eq
  have unusedNext : next.savedRequest user id = none := by
    unfold Db.savedRequest
    rw [same]
    exact unused
  have lasting : ¬(request.isRead = true ∨ isTransient response = true) := by
    simp [durable, settles.1]
  have answered : ¬(request.isAcknowledge = true ∧ response ≠ .acknowledged) := by
    rintro ⟨isReceipt, other⟩
    exact other (settles.2 isReceipt)
  simp only [deliver, working, transact, encoded, unused, perform, receipt, admitted, executed,
    if_neg answered, if_neg lasting, record_eq unusedNext kept, same, not_true_eq_false, if_false]

theorem deliver_changes (sha256 : Hash) (here : Surroundings) (db : Db) (user : UserId)
    (id : MessageId) (request : Request) :
    (deliver sha256 here db user id request).2 = db ∨
      ∃ response, (deliver sha256 here db user id request).1 = .ok response ∧
        Executes sha256 here db user id request response
          (deliver sha256 here db user id request).2 := by
  rcases deliver_cases sha256 here db user id request with ⟨e, same⟩ | ⟨response, final, same, -, changes⟩
  · exact .inl (congrArg Prod.snd same)
  · rw [same]
    exact changes.imp_right fun executes => ⟨response, rfl, executes⟩

end Grotto.Relay.Steps
