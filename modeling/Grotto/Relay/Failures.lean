/- GID: Grotto/Relay/Failures
   digest: Why a call fails although its storage works, and what a refused call leaves unchanged. -/

import Grotto.Relay.Pages
import Mathlib.Data.UInt

set_option autoImplicit false

namespace Grotto.Relay.Failures

open Format.Varint
open Protocol.Records Protocol.Wire Protocol.Transcripts Protocol.Sizes
open Storage Deliver Steps Invariant
open Pages

def Only {α : Type} (reasons : StorageError → Prop) (x : Except StorageError α) : Prop :=
  ∀ e, x = .error e → reasons e

section Rules

variable {α β : Type} {reasons : StorageError → Prop} {x : Except StorageError α}

theorem only_ok (a : α) : Only reasons (.ok a) := fun _ => nofun

theorem only_error {e : StorageError} (holds : reasons e) :
    Only reasons (.error e : Except StorageError α) := by
  rintro e' ⟨⟩
  exact holds

theorem Only.bind {f : α → Except StorageError β} (first : Only reasons x)
    (rest : ∀ a, x = .ok a → Only reasons (f a)) : Only reasons (x >>= f) := by
  cases x with
  | error e =>
    rintro e' ⟨⟩
    exact first e rfl
  | ok a => exact rest a rfl

theorem Only.map (f : α → β) (first : Only reasons x) : Only reasons (x.map f) := by
  cases x with
  | error e =>
    rintro e' ⟨⟩
    exact first e rfl
  | ok a => exact only_ok _

theorem Only.ite {c : Prop} [Decidable c] {x y : Except StorageError α}
    (left : c → Only reasons x) (right : ¬c → Only reasons y) : Only reasons (if c then x else y) := by
  split
  · exact left ‹_›
  · exact right ‹_›

end Rules

def Overflows {κ : Type} (ledger : List (κ × Nat)) (k : κ) : Prop :=
  ∃ row ∈ ledger, row.1 = k ∧ i64Max < row.2

inductive Fails (sha256 : Hash) (here : Surroundings) (db : Db) (user : UserId) (id : MessageId) :
    Request → StorageError → Prop
  | sender {request : Request} (full : Overflows db.usageSender user) :
      Fails sha256 here db user id request .database
  | ledger {request : Request} {room : RoomId} (target : chargeRoom request = some room)
      (full : Overflows db.usageRoom room) : Fails sha256 here db user id request .database
  | random {name : String} (none : here.newRoom = none) :
      Fails sha256 here db user id (.createRoom name) .random
  | room {name : String} {r : RoomRow} (taken : r ∈ db.rooms) (drawn : here.newRoom = some r.roomId) :
      Fails sha256 here db user id (.createRoom name) .database
  | cursors {operation : Append} (full : i64Max ≤ db.lastCursor) :
      Fails sha256 here db user id (.appendRoomOperation operation) .database
  | receipt {cursor : UInt64} (named : id = acknowledgementId sha256 user [] [cursor])
      (large : i64Max < cursor.toNat) :
      Fails sha256 here db user id (.acknowledge [] [cursor]) .database

section Reasons

variable {sha256 : Hash} {here : Surroundings} {db : Db} {user : UserId} {id : MessageId}
variable {reasons : StorageError → Prop} {request : Request}

theorem only_usage {κ : Type} [DecidableEq κ] {ledger : List (κ × Nat)} {k : κ}
    (full : Overflows ledger k → reasons .database) : Only reasons (usage ledger k) := by
  unfold usage
  split
  · exact only_ok 0
  · rename_i row found
    refine Only.ite (fun _ => only_ok _) fun large => only_error (full ?_)
    exact ⟨row, List.mem_of_find?_eq_some found, of_decide_eq_true (List.find?_some found :),
      Nat.not_le.mp large⟩

theorem only_admission {wire : Bytes} (encoded : encodeMessage request = .ok wire) :
    Only (Fails sha256 here db user id request) (admission here db user request) := by
  refine Only.ite (fun _ => only_ok true) fun _ => ?_
  unfold admits
  rw [encoded]
  refine Only.ite (fun _ => only_ok _) fun _ => Only.ite (fun _ => only_ok _) fun _ =>
    Only.ite (fun _ => only_ok _) fun _ => Only.bind ?_ fun _ _ => only_ok _
  refine Only.bind (only_usage .sender) fun _ _ => Only.ite (fun _ => only_ok _) fun _ => ?_
  split
  · exact only_ok true
  · rename_i room target
    exact Only.bind (only_usage (.ledger target)) fun _ _ => only_ok _

theorem only_createRoom {name : String} :
    Only (Fails sha256 here db user id (.createRoom name)) (createRoom here db user name) := by
  unfold createRoom reject
  split
  · exact only_ok _
  refine Only.ite (fun _ => only_ok _) fun _ => ?_
  split
  · rename_i none
    exact only_error (.random none)
  rename_i room drawn
  refine Only.bind (Only.ite (fun taken => ?_) fun _ => only_ok _) fun _ _ => only_ok _
  obtain ⟨r, listed, same⟩ := List.any_eq_true.mp taken
  refine only_error (.room listed ?_)
  rw [drawn]
  exact congrArg some (of_decide_eq_true same).symm

theorem only_encode {α : Type} [Serde α] {value : α}
    (fits : wireSize value ≤ maxPayload) : Only reasons (encodeStored value) := by
  rw [encodeStored_ok.mpr (encodeMessage_of_le fits)]
  exact only_ok _

theorem only_publishWelcome {operation : Append} {welcome : WelcomeAttachment}
    (known : ∃ r ∈ db.rooms, r.roomId = operation.room)
    (names : ∀ r ∈ db.rooms, normalizeRoomName r.name = .ok r.name)
    (body : welcome.body.length ≤ maxMlsBlobBytes)
    (full : i64Max ≤ db.lastCursor → reasons .database) :
    Only reasons (publishWelcome db user id operation.room (operation.parent.toNat + 1) welcome) := by
  unfold publishWelcome
  split
  · rename_i missing
    obtain ⟨r, listed, same⟩ := known
    exact absurd (decide_eq_true same) (List.find?_eq_none.mp missing r listed)
  rename_i room found
  have normal := names room (List.mem_of_find?_eq_some found)
  have fits := size_welcome_le (w := welcomeOf room.name user id operation welcome) normal rfl body
  refine Only.bind (only_encode (Nat.le_trans fits (by decide)))
    fun _ _ => Only.bind ?_ fun _ _ => only_ok _
  exact Only.ite (fun _ => only_ok _) fun large => only_error (full (by omega))

theorem only_appendRoomOperation (tables : Tables db) {operation : Append} :
    Only (Fails sha256 here db user id (.appendRoomOperation operation))
      (appendRoomOperation db user id operation) := by
  refine Only.ite (fun _ => only_ok _) fun subscribed => Only.ite (fun _ => only_ok _) fun passed =>
    Only.ite (fun _ => only_ok _) fun atHead => Only.ite (fun _ => only_ok _) fun fresh => ?_
  have admissible := admissible_of_not (Bool.eq_false_iff.mpr passed)
  have bound := admissible.parent
  have head := not_not.mp atHead
  have fits := size_event_le (e := ⟨id, user, operation⟩) admissible
  refine Only.bind (only_encode (by omega)) fun record _ => ?_
  have inserted := insertEvent_next tables.log
    ⟨operation.room, db.head operation.room + 1, id, user, record⟩ rfl (by rw [head]; exact bound)
    (Bool.eq_false_iff.mpr fresh)
  rw [inserted, head]
  refine Only.bind (only_ok _) fun d same => ?_
  obtain rfl := Except.ok.inj same
  split
  · exact only_ok _
  · rename_i welcome attached
    have known := tables.rooms.known _ (isSubscribed_iff.mp (not_not.mp subscribed))
    exact Only.bind (only_publishWelcome known tables.rooms.names (admissible.welcome welcome attached).2
      fun full => .cursors full) fun _ _ => only_ok _

theorem only_acknowledge {events : List MessageId} {welcomes : List UInt64}
    (valid : receiptValid sha256 user id (.acknowledge events welcomes) = true) :
    Only (Fails sha256 here db user id (.acknowledge events welcomes))
      (acknowledge db user events welcomes) := by
  obtain ⟨one, named⟩ := of_decide_eq_true valid
  refine Only.ite (fun _ => only_ok _) fun _ => Only.ite (fun _ => ?_) fun _ => only_ok _
  cases welcomes with
  | nil => exact only_ok _
  | cons cursor rest =>
    rw [List.length_cons] at one
    obtain rfl : events = [] := List.eq_nil_of_length_eq_zero (by omega)
    obtain rfl : rest = [] := List.eq_nil_of_length_eq_zero (by omega)
    refine Only.bind (Only.ite (fun _ => only_ok _) fun large => only_error ?_) fun _ _ =>
      Only.ite (fun _ => only_ok _) fun _ => only_ok _
    exact .receipt named (Nat.not_le.mp large)

theorem only_fetchRoomEvents (tables : Tables db) (room : RoomId)
    (start : UInt64) : Only reasons (fetchRoomEvents db user room start) := by
  by_cases bound : start.toNat > i64Max
  · rw [fetchRoomEvents, if_pos bound]
    exact only_ok _
  cases subscribed : db.isSubscribed room user with
  | false =>
    rw [fetchRoomEvents, if_neg bound, if_pos (by simp [subscribed])]
    exact only_ok _
  | true =>
    obtain ⟨page, events, more, result, -⟩ :=
      fetchRoomEvents_page tables subscribed (Nat.not_lt.mp bound)
    rw [result]
    exact only_ok _

theorem only_fetchWelcomes (tables : Tables db) (start : UInt64) :
    Only reasons (fetchWelcomes db user start) := by
  by_cases bound : start.toNat > i64Max
  · rw [fetchWelcomes, if_pos bound]
    exact only_ok _
  · obtain ⟨page, welcomes, more, result, -⟩ :=
      fetchWelcomes_page tables user (Nat.not_lt.mp bound)
    rw [result]
    exact only_ok _

theorem only_execute (tables : Tables db) (valid : receiptValid sha256 user id request = true) :
    Only (Fails sha256 here db user id request) (execute here db user id request) := by
  cases request with
  | createRoom name => exact only_createRoom
  | publishKeyPackages packages =>
    exact Only.ite (fun _ => only_ok _) fun _ => Only.ite (fun _ => only_ok _) fun _ => only_ok _
  | acknowledge events welcomes => exact (only_acknowledge valid).map _
  | appendRoomOperation operation => exact only_appendRoomOperation tables
  | fetchRoomEvents room start => exact (only_fetchRoomEvents tables room start).map _
  | syncIndex start => exact only_ok _
  | fetchWelcomes start => exact (only_fetchWelcomes tables start).map _
  | reserveKeyPackage recipient =>
    refine Only.ite (fun _ => only_ok _) fun _ => Only.ite (fun _ => only_ok _) fun _ => ?_
    split <;> exact only_ok _
  | setFetchGrant requester allowed => exact Only.ite (fun _ => only_ok _) fun _ => only_ok _

theorem only_record {hash : Digest} {bytes : Bytes}
    {response : Response} (unused : db.savedRequest user id = none)
    (fits : 18 + fieldsSize response ≤ maxPayload) :
    Only reasons (record db user id request hash bytes response) := by
  have size : wireSize response = fieldsSize response + 1 := size_response response
  have kept : encodeMessage response = .ok _ := encodeMessage_of_le (by omega)
  rw [record_eq unused kept]
  exact only_ok _

theorem only_perform (tables : Tables db) (unused : db.savedRequest user id = none)
    {wire : Bytes} (encoded : encodeMessage request = .ok wire) :
    Only (Fails sha256 here db user id request) (perform sha256 here db user id request wire) := by
  refine Only.ite (fun _ => only_ok _) fun valid => ?_
  split
  · rename_i e failed
    exact only_error (only_admission encoded e failed)
  · exact only_ok _
  split
  · rename_i e failed
    exact only_error (only_execute tables (not_not.mp valid) e failed)
  rename_i response next done
  have writes := execute_writes done
  refine Only.ite (fun _ => only_ok _) fun _ => Only.ite (fun _ => only_ok _) fun lasting => ?_
  push Not at lasting
  have free : next.savedRequest user id = none := by
    unfold Db.savedRequest
    rw [writes.requests_eq]
    exact unused
  have recorded : Only (Fails sha256 here db user id request)
      (record next user id request (sha256 wire) wire response) :=
    only_record free (Writes.fits tables writes (by simpa using lasting.1))
  split
  · rename_i e failed
    exact only_error (recorded e failed)
  · exact only_ok _

theorem deliver_fails (valid : Valid sha256 db) {e : StorageError}
    (fits : wireSize request ≤ maxPayload)
    (failed : (deliver sha256 here db user id request).1 = .error e) :
    (∃ fault, here.fault = some fault ∧ e = fault.error) ∨
      db.savedRequest user id = none ∧ Fails sha256 here db user id request e := by
  have encoded := encodeMessage_of_le fits
  have body : Only (fun e => db.savedRequest user id = none ∧ Fails sha256 here db user id request e)
      (transact sha256 here db user id request) := by
    unfold transact
    rw [encoded]
    dsimp only
    split
    · rename_i row saved
      refine Only.ite (fun _ => only_ok _) fun _ => ?_
      obtain ⟨_, response, result⟩ := valid.journal.results row (savedRequest_some saved).1
      rw [decodeStored_ok.mpr result.decoded]
      exact only_ok _
    · rename_i unused
      exact fun e failed => ⟨unused, only_perform valid.toTables unused encoded e failed⟩
  unfold deliver at failed
  split at failed
  · rename_i fault broken
    cases failed
    exact .inl ⟨fault, broken, rfl⟩
  split at failed
  · rename_i e' failing
    cases failed
    exact .inr (body e failing)
  all_goals cases failed

end Reasons

section Refusals

variable {db next : Db} {user : UserId} {id : MessageId}
variable {request : Request} {response : Response}

def isRefusal : Response → Bool
  | .headConflict _ _ | .rejected _ => true
  | _ => false

theorem Writes.unchanged_of_refusal (writes : Writes db user id request response next)
    (refused : isRefusal response = true) : next = db := by
  cases writes with
  | rejected | conflict | read => rfl
  | _ => cases refused

structure SameContents (db next : Db) : Prop where
  rooms : next.rooms = db.rooms
  roomSubscribers : next.roomSubscribers = db.roomSubscribers
  keyPackages : next.keyPackages = db.keyPackages
  fetchGrants : next.fetchGrants = db.fetchGrants
  packageAllocations : next.packageAllocations = db.packageAllocations
  deliveryEvents : next.deliveryEvents = db.deliveryEvents
  deliveryWelcomes : next.deliveryWelcomes = db.deliveryWelcomes

theorem sameContents_charged (wire : Bytes) (requests : List RequestRow) :
    SameContents db { chargeUsage db user request wire with deliveryRequests := requests } := by
  unfold chargeUsage
  split <;> exact ⟨rfl, rfl, rfl, rfl, rfl, rfl, rfl⟩

inductive Passing (db : Db) (user : UserId) (id : MessageId) (request : Request) :
    Except StorageError Response → Prop
  | failed (e : StorageError) : Passing db user id request (.error e)
  | transient {response : Response} (transient : isTransient response = true) :
      Passing db user id request (.ok response)
  | receipt {reason : Rejection} (receipt : request.isAcknowledge = true) :
      Passing db user id request (.ok (.rejected reason))
  | reused (saved : (db.savedRequest user id).isSome = true) :
      Passing db user id request (.ok (.rejected .requestConflict))
  | read {response : Response} (read : request.isRead = true) : Passing db user id request (.ok response)

/-- A head conflict or a rejection of any kind leaves all tables but the journal and the ledgers as
they were; a failure, a transient rejection, a refused receipt, the conflict about a reused
identifier and the answer to a read leave every table as it was. -/
theorem refusals_change_nothing (sha256 : Hash) (here : Surroundings) (db : Db) (user : UserId)
    (id : MessageId) (request : Request) :
    (∀ response, (deliver sha256 here db user id request).1 = .ok response →
      isRefusal response = true → SameContents db (deliver sha256 here db user id request).2) ∧
    (Passing db user id request (deliver sha256 here db user id request).1 →
      (deliver sha256 here db user id request).2 = db) := by
  rcases deliver_changes sha256 here db user id request with same | ⟨response, answer, executes⟩
  · rw [same]
    exact ⟨fun _ _ _ => ⟨rfl, rfl, rfl, rfl, rfl, rfl, rfl⟩, fun _ => rfl⟩
  · refine ⟨fun given answered refused => ?_, fun passing => ?_⟩
    · obtain rfl := Except.ok.inj (answer.symm.trans answered)
      obtain ⟨wire, bytes, next, -, -, executed, final⟩ := executes.charged
      obtain rfl := Writes.unchanged_of_refusal (execute_writes executed) refused
      rw [final]
      exact sameContents_charged wire _
    · rw [answer] at passing
      cases passing with
      | transient transient =>
        rw [executes.settles.1] at transient
        cases transient
      | receipt receipt => cases executes.settles.2 receipt
      | reused saved =>
        rw [executes.unused] at saved
        cases saved
      | read read =>
        rw [executes.durable] at read
        cases read

end Refusals

section Failing

variable {sha256 : Hash} {here : Surroundings} {db : Db} {user : UserId} {id : MessageId}
variable {request : Request} {response : Response}

/-- A machine whose storage works and whose numbers fit their columns: a new room identifier is at
hand, the counter of Welcomes is not exhausted, and the ledgers are integers. -/
structure Serves (here : Surroundings) (db : Db) : Prop where
  working : here.fault = none
  drawn : ∃ room, here.newRoom = some room ∧ ∀ r ∈ db.rooms, r.roomId ≠ room
  cursors : db.lastCursor < i64Max
  senders : ∀ row ∈ db.usageSender, row.2 ≤ i64Max
  ledgers : ∀ row ∈ db.usageRoom, row.2 ≤ i64Max

/-- Integer fields that no column holds, or whose successor none holds. -/
def outOfRange : Request → Bool
  | .fetchRoomEvents _ start | .fetchWelcomes start => decide (i64Max < start.toNat)
  | .appendRoomOperation operation => decide (i64Max ≤ operation.parent.toNat)
  | .acknowledge _ welcomes => welcomes.any fun cursor => decide (i64Max < cursor.toNat)
  | _ => false

/-- A receipt, under its own unused identifier, of a Welcome at a cursor that no column holds. -/
def Unbindable (sha256 : Hash) (db : Db) (user : UserId) (id : MessageId) (request : Request) : Prop :=
  db.savedRequest user id = none ∧ ∃ cursor, request = .acknowledge [] [cursor] ∧
    id = acknowledgementId sha256 user [] [cursor] ∧ i64Max < cursor.toNat

theorem not_overflows {κ : Type} {ledger : List (κ × Nat)} {k : κ}
    (within : ∀ row ∈ ledger, row.2 ≤ i64Max) : ¬Overflows ledger k := by
  rintro ⟨row, listed, -, large⟩
  exact Nat.not_lt.mpr (within row listed) large

theorem unbindable_of_fails {e : StorageError} (serves : Serves here db)
    (unused : db.savedRequest user id = none) (fails : Fails sha256 here db user id request e) :
    Unbindable sha256 db user id request := by
  obtain ⟨room, drawn, fresh⟩ := serves.drawn
  cases fails with
  | sender full => exact absurd full (not_overflows serves.senders)
  | ledger target full => exact absurd full (not_overflows serves.ledgers)
  | random none =>
    rw [drawn] at none
    cases none
  | room taken named =>
    rw [drawn] at named
    exact absurd (Option.some.inj named).symm (fresh _ taken)
  | cursors full => exact absurd serves.cursors (Nat.not_lt.mpr full)
  | receipt named large => exact ⟨unused, _, rfl, named, large⟩

theorem acknowledge_welcome (cursor : UInt64) :
    acknowledge db user [] [cursor] = acknowledgeWelcomes db user [cursor] :=
  rfl

theorem fails_of_unbindable (working : here.fault = none) (fits : wireSize request ≤ maxPayload)
    (unbindable : Unbindable sha256 db user id request) :
    (deliver sha256 here db user id request).1 = .error .database := by
  obtain ⟨unused, cursor, rfl, named, large⟩ := unbindable
  have valid : receiptValid sha256 user id (.acknowledge [] [cursor]) = true :=
    decide_eq_true ⟨rfl, named⟩
  have refused : acknowledgeWelcomes db user [cursor] = .error .database := by
    unfold acknowledgeWelcomes bindU64
    rw [if_neg (Nat.not_le.mpr large)]
    rfl
  have executed : execute here db user id (.acknowledge [] [cursor]) = .error .database := by
    change (acknowledge db user [] [cursor]).map (·, db) = .error .database
    rw [acknowledge_welcome, refused]
    rfl
  have performed : perform sha256 here db user id (.acknowledge [] [cursor])
      ((serde Request).encode (.acknowledge [] [cursor])) = .error .database := by
    unfold perform
    rw [if_neg (not_not.mpr valid)]
    simp only [admission, Request.isRead, Request.isAcknowledge, Bool.false_or, if_true, executed]
  unfold deliver transact
  rw [working, encodeMessage_of_le fits]
  rw [unused]
  dsimp only
  rw [performed]

theorem answer_of_unused (unused : db.savedRequest user id = none)
    (answer : (deliver sha256 here db user id request).1 = .ok response) :
    (∃ reason, response = .rejected reason) ∨
      receiptValid sha256 user id request = true ∧
        ∃ next, execute here db user id request = .ok (response, next) := by
  have performed : ∀ wire kept, perform sha256 here db user id request wire = .ok (response, kept) →
      (∃ reason, response = .rejected reason) ∨ receiptValid sha256 user id request = true ∧
        ∃ next, execute here db user id request = .ok (response, next) := by
    intro wire kept done
    unfold perform at done
    split at done
    · exact .inl ⟨_, (Prod.mk.inj (Except.ok.inj done)).1.symm⟩
    rename_i valid
    split at done
    · cases done
    · exact .inl ⟨_, (Prod.mk.inj (Except.ok.inj done)).1.symm⟩
    split at done
    · cases done
    rename_i given next executed
    suffices same : given = response by
      subst same
      exact .inr ⟨not_not.mp valid, next, executed⟩
    split at done
    · exact (Prod.mk.inj (Except.ok.inj done)).1
    split at done
    · exact (Prod.mk.inj (Except.ok.inj done)).1
    · split at done
      · cases done
      · exact (Prod.mk.inj (Except.ok.inj done)).1
  unfold deliver transact at answer
  split at answer
  · cases answer
  cases encoded : encodeMessage request with
  | error e =>
    rw [encoded] at answer
    cases answer
  | ok wire =>
    rw [encoded] at answer
    rw [unused] at answer
    split at answer
    · cases answer
    all_goals
      rename_i done
      obtain rfl := Except.ok.inj answer
      exact performed wire _ done

theorem rejected_of_outOfRange {next : Db} (large : outOfRange request = true)
    (valid : receiptValid sha256 user id request = true)
    (executed : execute here db user id request = .ok (response, next)) :
    ∃ reason, response = .rejected reason := by
  cases request with
  | fetchRoomEvents room start =>
    have result := (map_unchanged executed).1
    rw [fetchRoomEvents, if_pos (of_decide_eq_true large)] at result
    exact ⟨_, (Except.ok.inj result).symm⟩
  | fetchWelcomes start =>
    have result := (map_unchanged executed).1
    rw [fetchWelcomes, if_pos (of_decide_eq_true large)] at result
    exact ⟨_, (Except.ok.inj result).symm⟩
  | appendRoomOperation operation =>
    change appendRoomOperation db user id operation = _ at executed
    have barred : inadmissible operation = true := by
      have bound : i64Max ≤ operation.parent.toNat := of_decide_eq_true large
      simp [inadmissible, bound]
    unfold appendRoomOperation at executed
    split at executed
    all_goals exact ⟨_, (Prod.mk.inj (Except.ok.inj executed)).1.symm⟩
  | acknowledge events welcomes =>
    obtain ⟨one, -⟩ := of_decide_eq_true valid
    obtain ⟨cursor, listed, above⟩ := List.any_eq_true.mp large
    cases welcomes with
    | nil => cases listed
    | cons first rest =>
      rw [List.length_cons] at one
      obtain rfl : events = [] := List.eq_nil_of_length_eq_zero (by omega)
      obtain rfl : rest = [] := List.eq_nil_of_length_eq_zero (by omega)
      obtain rfl := List.mem_singleton.mp listed
      have result := (map_unchanged executed).1
      rw [acknowledge_welcome, acknowledgeWelcomes, bindU64,
        if_neg (Nat.not_le.mpr (of_decide_eq_true above))] at result
      cases result
  | _ => cases large

/-- In every state the calls can reach and for every request a connection can decode, on a machine
that serves: the call is answered, and a number out of range that would reach a statement is turned
down, exactly unless the request is a receipt, under its own unused identifier, of a Welcome at a
cursor beyond the signed range. -/
theorem request_answered_iff (sha256 : Hash) (calls : List Call) (here : Surroundings)
    (user : UserId) (id : MessageId) (request : Request) (frame : Bytes)
    (decoded : decodeMessage ClientMessage frame = .ok (.delivery id request))
    (serves : Serves here (runCalls sha256 Db.empty calls)) :
    (∃ response,
      (deliver sha256 here (runCalls sha256 Db.empty calls) user id request).1 = .ok response ∧
      ((runCalls sha256 Db.empty calls).savedRequest user id = none → outOfRange request = true →
        ∃ reason, response = .rejected reason)) ↔
      ¬Unbindable sha256 (runCalls sha256 Db.empty calls) user id request := by
  have valid := (Valid.empty sha256).runCalls calls
  have fits := size_of_decoded decoded
  generalize runCalls sha256 Db.empty calls = db at serves valid ⊢
  constructor
  · rintro ⟨response, answer, -⟩ unbindable
    rw [fails_of_unbindable serves.working fits unbindable] at answer
    cases answer
  · intro bindable
    cases answer : (deliver sha256 here db user id request).1 with
    | error e =>
      rcases deliver_fails valid fits answer with ⟨fault, broken, -⟩ | ⟨unused, fails⟩
      · rw [serves.working] at broken
        cases broken
      · exact absurd (unbindable_of_fails serves unused fails) bindable
    | ok response =>
      refine ⟨response, rfl, fun unused large => ?_⟩
      rcases answer_of_unused unused answer with refused | ⟨named, next, executed⟩
      · exact refused
      · exact rejected_of_outOfRange large named executed

theorem serves_idle : Serves idle Db.empty :=
  ⟨rfl, ⟨_, rfl, by simp [Db.empty]⟩, by decide, by simp [Db.empty], by simp [Db.empty]⟩

theorem request_answered_iff_grant :
    ∃ response, (deliver leadingBytes idle Db.empty alice firstId (.setFetchGrant bob true)).1 =
      .ok response := by
  have answered := (request_answered_iff leadingBytes [] idle alice firstId (.setFetchGrant bob true)
    ((serde ClientMessage).encode (.delivery firstId (.setFetchGrant bob true))) (by decide +kernel)
    serves_idle).mpr (by rintro ⟨-, cursor, kind, -⟩; cases kind)
  obtain ⟨response, answer, -⟩ := answered
  exact ⟨response, answer⟩

/-- The receipt of a Welcome at cursor `2 ^ 63`, which a connection decodes, fails the call. -/
theorem receipt_beyond_range_fails :
    decodeMessage ClientMessage ((serde ClientMessage).encode
      (.delivery (acknowledgementId leadingBytes alice [] [2 ^ 63]) (.acknowledge [] [2 ^ 63]))) =
      .ok (.delivery (acknowledgementId leadingBytes alice [] [2 ^ 63]) (.acknowledge [] [2 ^ 63])) ∧
    Serves idle Db.empty ∧
    (deliver leadingBytes idle Db.empty alice (acknowledgementId leadingBytes alice [] [2 ^ 63])
      (.acknowledge [] [2 ^ 63])).1 = .error .database :=
  ⟨by decide +kernel, serves_idle, by decide +kernel⟩

end Failing

end Grotto.Relay.Failures
