/- GID: Grotto/Relay/Accounting
   digest: The bytes a call stores against the bytes it is charged. -/

import Grotto.Relay.Quotas
import Grotto.Relay.WelcomePage

set_option autoImplicit false

namespace Grotto.Relay.Accounting

open Format.Varint Format.Postcard
open Protocol.Records Protocol.Wire Protocol.Transcripts
open Protocol.Sizes
open Storage Deliver Steps Invariant
open Executions Quotas
open WelcomePage (admit_idle)

section Volumes

variable {ρ : Type} [DecidableEq ρ] {rows fewer : List ρ}

def inserted (before after : List ρ) : List ρ := after.diff before

def volume (size : ρ → Nat) (before after : List ρ) : Nat := ((inserted before after).map size).sum

theorem inserted_append (rows new : List ρ) : inserted rows (rows ++ new) = new := by
  induction rows with
  | nil => rfl
  | cons row rows ih =>
    unfold inserted at ih ⊢
    rw [List.cons_append, List.diff_cons, List.erase_cons_head, ih]

theorem inserted_sublist (sub : fewer.Sublist rows) : inserted rows fewer = [] := by
  have self := inserted_append rows []
  rw [List.append_nil] at self
  exact List.sublist_nil.mp (self ▸ sub.diff_right)

@[simp] theorem volume_append (size : ρ → Nat) (rows new : List ρ) :
    volume size rows (rows ++ new) = (new.map size).sum := by
  rw [volume, inserted_append]

theorem volume_sublist (size : ρ → Nat) (sub : fewer.Sublist rows) :
    volume size rows fewer = 0 := by
  rw [volume, inserted_sublist sub]
  rfl

@[simp] theorem volume_same (size : ρ → Nat) (rows : List ρ) : volume size rows rows = 0 :=
  volume_sublist size (List.Sublist.refl rows)

end Volumes

/-- Column sizes: 16 bytes for an identifier, 32 for a hash and 8 for an integer, the defaulted times
of rooms and packages included. -/
def requestSize (row : RequestRow) : Nat := 16 + 16 + 32 + row.response.length
def eventSize (row : EventRow) : Nat := 16 + 8 + 16 + 16 + row.record.length
def welcomeRowSize (row : WelcomeRow) : Nat := 8 + 16 + row.record.length
def roomSize (row : RoomRow) : Nat := 16 + utf8Size row.name + 16 + 8
def subscriberSize (_ : RoomId × UserId) : Nat := 16 + 16
def packageSize (row : KeyPackageRow) : Nat := 16 + row.keyPackage.length + 8
def grantSize (_ : UserId × UserId) : Nat := 16 + 16
def allocationSize (_ : AllocationRow) : Nat := 16 + 16 + 8

/-- The bytes of the rows that stand in the delivery tables after a call and did not before. -/
def stored (db next : Db) : Nat :=
  volume requestSize db.deliveryRequests next.deliveryRequests +
  volume eventSize db.deliveryEvents next.deliveryEvents +
  volume welcomeRowSize db.deliveryWelcomes next.deliveryWelcomes +
  volume roomSize db.rooms next.rooms +
  volume subscriberSize db.roomSubscribers next.roomSubscribers +
  volume packageSize db.keyPackages next.keyPackages +
  volume grantSize db.fetchGrants next.fetchGrants +
  volume allocationSize db.packageAllocations next.packageAllocations

section Sizes

theorem wireSize_response (response : Response) : wireSize response = fieldsSize response + 1 :=
  size_response response

theorem eventSize_eventRow (user : UserId) (id : MessageId) (operation : Append) (record : Bytes) :
    eventSize (eventRow user id operation record) = 56 + record.length := rfl

theorem sum_packageSize (user : UserId) (packages : List Bytes) :
    ((packages.map (KeyPackageRow.mk user)).map packageSize).sum =
      24 * packages.length + (packages.map List.length).sum := by
  induction packages with
  | nil => rfl
  | cons package packages ih =>
    simp only [List.map_cons, List.sum_cons, List.length_cons, ih, packageSize]
    omega

theorem sum_length_le_publish (packages : List Bytes) :
    (packages.map List.length).sum ≤ wireSize (Request.publishKeyPackages packages) := by
  change _ ≤ (seq wire.packages (bytes wire.package)).size packages + 1
  rw [size_seq]
  have each : (packages.map List.length).sum ≤ (packages.map (bytes wire.package).size).sum := by
    refine List.sum_le_sum fun package _ => ?_
    rw [size_bytes]
    omega
  omega

theorem wireSize_reserve (recipient : UserId) : wireSize (Request.reserveKeyPackage recipient) = 17 := by
  change userId.size recipient + 1 = 17
  rw [size_userId]

theorem varintSize_u64 (n : UInt64) : varintSize 10 n.toNat ≤ 10 :=
  varintSize_le (k := 9) (by have := n.toNat_lt; omega)

end Sizes

section Writing

variable {db next : Db} {user : UserId} {id : MessageId} {request : Request} {response : Response}

theorem volume_subscribe (d : Db) (room : RoomId) (u : UserId) :
    volume subscriberSize d.roomSubscribers (d.subscribe room u).roomSubscribers ≤ 32 := by
  unfold Db.subscribe
  split
  · simp
  · simp [subscriberSize]

theorem length_copy {name : String} {operation : Append} {welcome : WelcomeAttachment} {copy : Bytes}
    (kept : encodeMessage (welcomeOf name user id operation welcome) = .ok copy)
    (normal : normalizeRoomName name = .ok name) :
    copy.length ≤ 478 + (welcomeAttachment wire).size welcome := by
  have named : utf8Size name ≤ 400 := normalizeRoomName_size normal
  have prefixed : varintSize 10 (utf8Size name) ≤ 10 := varintSize_le (k := 9) (by omega)
  have cursor := varintSize_u64 0
  have sequence := varintSize_u64 (UInt64.ofNat (operation.parent.toNat + 1))
  have size := (length_of_encodeMessage kept).trans (size_welcomeDelivery wire _)
  unfold welcomeOf at size
  dsimp only at size
  omega

/-- What a request writes beside its journal row, and the answer in that row, fit the charge of the
request, unless it was handed a key package. -/
theorem stored_le (tables : Tables db) (writes : Writes db user id request response next)
    (durable : request.isRead = false)
    (other : ∀ recipient package, response ≠ .keyPackage recipient package) :
    stored db next + 64 + wireSize response ≤ 3 * wireSize request + 16384 := by
  rw [wireSize_response]
  cases writes with
  | rejected reason => simp [stored, fieldsSize]
  | read read =>
    rw [durable] at read
    cases read
  | acknowledged => simp [stored, fieldsSize]
  | @conflict operation stale =>
    have head := varintSize_u64 (UInt64.ofNat (db.head operation.room))
    simp only [stored, volume_same, fieldsSize]
    omega
  | @room name normalized room normal fresh =>
    have subscribed := volume_subscribe
      { db with rooms := db.rooms ++ [⟨room, normalized, user⟩] } room user
    have named : utf8Size normalized ≤ 400 := normalizeRoomName_size normal
    simp only [stored, subscribe_rooms, subscribe_events, subscribe_welcomes, subscribe_requests,
      subscribe_packages, subscribe_grants, subscribe_packageAllocations, volume_same, volume_append,
      List.map_cons, List.map_nil, List.sum_cons, List.sum_nil, roomSize, fieldsSize]
    dsimp only at subscribed
    omega
  | @packages packages sized few =>
    have bodies := sum_length_le_publish packages
    have count := varintSize_u64 (UInt64.ofNat packages.length)
    simp only [stored, volume_same, volume_append, sum_packageSize, fieldsSize]
    omega
  | @granted requester =>
    have row : stored db (if db.isGranted user requester then db
        else { db with fetchGrants := db.fetchGrants ++ [(user, requester)] }) ≤ 32 := by
      split
      · simp [stored]
      · simp [stored, grantSize]
    simp only [fieldsSize]
    omega
  | revoked =>
    simp only [stored, volume_same, volume_sublist _ List.filter_sublist, fieldsSize]
    omega
  | reserved granted found => exact absurd rfl (other _ _)
  | event accepts plain =>
    have record := (length_of_encodeMessage accepts.encoded).trans (size_event wire _)
    dsimp only at record
    simp only [stored, volume_same, volume_append, List.map_cons, List.map_nil, List.sum_cons,
      List.sum_nil, eventSize_eventRow, fieldsSize, size_event, size_appendRequest]
    omega
  | @invitation operation record copy welcome room accepts attached found space kept =>
    have subscribed := volume_subscribe
      { db with
        deliveryEvents := db.deliveryEvents ++ [eventRow user id operation record]
        deliveryWelcomes := db.deliveryWelcomes ++
          [⟨db.lastCursor + 1, welcome.recipient, copy⟩] } operation.room welcome.recipient
    have logged := (length_of_encodeMessage accepts.encoded).trans (size_event wire _)
    have copied := length_copy kept (tables.rooms.names room (List.mem_of_find?_eq_some found))
    have whole : (welcomeAttachment wire).size welcome ≤ (append wire).size operation := by
      rw [size_append, attached, welcomeSize, size_welcomeAttachment]
      omega
    dsimp only at subscribed logged
    simp only [stored, subscribe_rooms, subscribe_events, subscribe_welcomes, subscribe_requests,
      subscribe_packages, subscribe_grants, subscribe_packageAllocations, volume_same, volume_append,
      List.map_cons, List.map_nil, List.sum_cons, List.sum_nil, eventSize_eventRow, welcomeRowSize,
      fieldsSize, size_event, size_appendRequest]
    omega

theorem stored_reserved {recipient : UserId} {row : KeyPackageRow} {time : Int} :
    stored db { db with
        keyPackages := db.keyPackages.eraseP fun row => row.userId = recipient
        packageAllocations := db.packageAllocations ++ [⟨user, recipient, time⟩] } + 64 +
        wireSize (Response.keyPackage recipient row.keyPackage) ≤
      3 * wireSize (Request.reserveKeyPackage recipient) + 16384 ↔ row.keyPackage.length ≤ 16312 := by
  have erased := volume_sublist packageSize
    (List.eraseP_sublist (p := fun row => decide (row.userId = recipient)) (l := db.keyPackages))
  rw [wireSize_response, wireSize_reserve]
  simp only [stored, volume_same, volume_append, erased, List.map_cons, List.map_nil, List.sum_cons,
    List.sum_nil, allocationSize, fieldsSize]
  constructor
  · intro within
    by_contra large
    have digits : varintSize 10 16313 ≤ varintSize 10 row.keyPackage.length :=
      varintSize_mono (by omega)
    have two : varintSize 10 16313 = 2 := by decide
    omega
  · intro small
    have digits : varintSize 10 row.keyPackage.length ≤ 2 := varintSize_le (k := 1) (by omega)
    omega

end Writing

variable {sha256 : Hash} {here : Surroundings} {db final : Db} {user : UserId} {id : MessageId}
  {request : Request} {response : Response}

theorem stored_executes (executes : Executes sha256 here db user id request response final) :
    ∃ next, execute here db user id request = .ok (response, next) ∧
      stored db final = stored db next + 64 + wireSize response := by
  obtain ⟨wire, bytes, next, -, kept, executed, rfl⟩ := executes.charged
  refine ⟨next, executed, ?_⟩
  have journal := (execute_writes executed).requests_eq
  have row := length_of_encodeMessage kept
  have charged : ∀ d : Db, stored db { chargeUsage next user request wire with
      deliveryRequests := d.deliveryRequests } = stored db { next with
        deliveryRequests := d.deliveryRequests } := by
    intro d
    unfold chargeUsage
    split <;> rfl
  rw [charged { next with
    deliveryRequests := db.deliveryRequests ++ [⟨user, id, sha256 wire, bytes⟩] }]
  simp only [stored, volume_append, journal, volume_same, List.map_cons, List.map_nil, List.sum_cons,
    List.sum_nil, requestSize]
  omega

theorem cost_executes (executes : Executes sha256 here db user id request response final) :
    cost request = 3 * wireSize request + 16384 := by
  obtain ⟨wire, bytes, next, encoded, -⟩ := executes.charged
  unfold cost
  rw [encoded, ← length_of_encodeMessage encoded]

/-- A reservation that is handed `row`: it is granted, under both limits of the last hour, and `row` is
the recipient's first package. -/
structure Hands (here : Surroundings) (db : Db) (requester recipient : UserId) (row : KeyPackageRow) :
    Prop where
  granted : db.isGranted recipient requester = true
  total : (recentAllocations here db recipient).length < 16
  own : ((recentAllocations here db recipient).filter fun r => r.requester = requester).length < 4
  first : db.keyPackages.find? (fun r => r.userId = recipient) = some row

theorem Hands.reserves {recipient : UserId} {row : KeyPackageRow} (hands : Hands here db user recipient row) :
    reserveKeyPackage here db user recipient = .ok (.keyPackage recipient row.keyPackage, { db with
      keyPackages := db.keyPackages.eraseP fun r => r.userId = recipient
      packageAllocations := db.packageAllocations ++ [⟨user, recipient, here.insertTime⟩] }) := by
  have below : ¬((recentAllocations here db recipient).length ≥ 16 ∨
      ((recentAllocations here db recipient).filter fun r => r.requester = user).length ≥ 4) := by
    have total := hands.total
    have own := hands.own
    omega
  unfold reserveKeyPackage
  dsimp only
  rw [if_neg (not_not_intro hands.granted), if_neg below, hands.first]

theorem hands_of_reserves {recipient other : UserId} {package : Bytes} {next : Db}
    (handed : reserveKeyPackage here db user recipient = .ok (.keyPackage other package, next)) :
    ∃ row, Hands here db user recipient row ∧ package = row.keyPackage := by
  unfold reserveKeyPackage reject at handed
  dsimp only at handed
  split at handed
  · cases handed
  rename_i granted
  split at handed
  · cases handed
  rename_i below
  split at handed
  · cases handed
  rename_i row found
  cases handed
  exact ⟨row, ⟨not_not.mp granted, by omega, by omega, found⟩, rfl⟩

/-- A reservation that will be handed a package of more than 16312 bytes. -/
def TakesLarge (db : Db) (c : Call) : Prop :=
  ∃ recipient row, c.request = .reserveKeyPackage recipient ∧ Hands c.here db c.user recipient row ∧
    16312 < row.keyPackage.length

/-- In every state the calls can reach and for every call whose result is journaled there: what the
call stores is at most the cost of its request, exactly if it is no reservation for which the state
before it has a package of more than 16312 bytes. -/
theorem stored_within_charge_iff (sha256 : Hash) (calls : List Call) (c : Call) (response : Response)
    (ran : executed sha256 (runCalls sha256 Db.empty calls) c = some response) :
    stored (runCalls sha256 Db.empty calls) (c.after sha256 (runCalls sha256 Db.empty calls)) ≤
        cost c.request ↔
      ¬TakesLarge (runCalls sha256 Db.empty calls) c := by
  have tables := ((Valid.empty sha256).runCalls calls).toTables
  rcases executed_cases sha256 (runCalls sha256 Db.empty calls) c with
    ⟨skipped, -⟩ | ⟨given, same, -, executes⟩
  · rw [skipped] at ran
    cases ran
  obtain rfl := Option.some.inj (same.symm.trans ran)
  obtain ⟨next, executed, total⟩ := stored_executes executes
  have writes := execute_writes executed
  have durable := executes.durable
  rw [total, cost_executes executes]
  by_cases reserves : ∃ recipient row, c.request = .reserveKeyPackage recipient ∧
      Hands c.here (runCalls sha256 Db.empty calls) c.user recipient row
  · obtain ⟨recipient, row, asked, hands⟩ := reserves
    rw [asked] at executed ⊢
    obtain ⟨rfl, rfl⟩ := Prod.mk.inj (Except.ok.inj (hands.reserves.symm.trans executed))
    rw [stored_reserved, ← not_lt, not_iff_not]
    constructor
    · exact fun large => ⟨recipient, row, asked, hands, large⟩
    · rintro ⟨other, first, same, found, large⟩
      cases asked.symm.trans same
      rwa [Option.some.inj (hands.first.symm.trans found.first)]
  · have handed : ∀ recipient package, given ≠ .keyPackage recipient package := by
      rintro recipient package rfl
      generalize asked : c.request = request at writes durable executed
      cases writes with
      | read read =>
        rw [durable] at read
        cases read
      | reserved granted found =>
        obtain ⟨row, hands, -⟩ := hands_of_reserves executed
        exact reserves ⟨_, row, asked, hands⟩
    exact iff_of_true (stored_le tables writes durable handed) fun ⟨recipient, row, asked, hands, _⟩ =>
      reserves ⟨recipient, row, asked, hands⟩

theorem stored_within_charge_granting :
    stored Db.empty (grantCall.after leadingBytes Db.empty) ≤ cost grantCall.request :=
  (stored_within_charge_iff leadingBytes [] grantCall .fetchGrantSet (by decide +kernel)).mpr
    fun ⟨_, _, asked, _⟩ => nomatch asked

section Largest

def publishing (package : Bytes) : Call :=
  ⟨idle, alice, ⟨Octets.replicate 16 0x13⟩, .publishKeyPackages [package]⟩

def taking : Call := ⟨idle, bob, ⟨Octets.replicate 16 0x14⟩, .reserveKeyPackage alice⟩

/-- The tables after `bob` was granted access to the packages of `alice`. -/
def grantedDb : Db where
  fetchGrants := [(alice, bob)]
  usageSender := [(alice, 16438)]
  deliveryRequests := [⟨alice, firstId,
    leadingBytes (8 :: (List.replicate 16 0x55 ++ [1])), [9]⟩]

theorem run_grantCall : runCalls leadingBytes Db.empty [grantCall] = grantedDb := by decide +kernel

variable {package : Bytes} (size : package.length = 16384)

include size in
theorem wireSize_publishing : wireSize (publishing package).request = 16389 := by
  change (seq wire.packages (bytes wire.package)).size [package] + 1 = 16389
  have one : varintSize 10 1 = 1 := by decide
  have three : varintSize 10 16384 = 3 := by decide
  rw [size_seq, List.map_singleton, List.sum_singleton, size_bytes, size, List.length_singleton, one,
    three]

include size in
theorem publishes_largest : publishKeyPackages grantedDb alice [package] =
    .ok (.keyPackagesPublished 1, { grantedDb with keyPackages := [⟨alice, package⟩] }) := by
  have nonempty : package ≠ [] := List.ne_nil_of_length_pos (by rw [size]; decide)
  unfold publishKeyPackages
  rw [if_neg, if_neg]
  · rfl
  · simp [grantedDb]
  · simp [nonempty, size, maxKeyPackageBytes, maxPayload]

structure Offers (package : Bytes) (db : Db) : Prop where
  packages : db.keyPackages = [⟨alice, package⟩]
  granted : db.isGranted alice bob = true
  allocations : db.packageAllocations = []
  unused : db.savedRequest bob taking.id = none
  ledger : usage db.usageSender bob = .ok 0

include size in
theorem offers_publishing :
    Offers package (runCalls leadingBytes Db.empty [grantCall, publishing package]) := by
  have wireSize := wireSize_publishing size
  have encoded := encodeMessage_of_le (wireSize.le.trans (by decide))
  have required : requiredBytes ((serde Request).encode (publishing package).request) ≤ 100000 := by
    rw [(requiredBytes_eq encoded).1, cost, encoded]
    dsimp only
    rw [← length_of_encodeMessage encoded] at wireSize
    omega
  have admitted : admission idle grantedDb alice (publishing package).request = .ok true :=
    admit_idle encoded required (show usage grantedDb.usageSender alice = .ok 16438 by decide)
      (by decide) (fun _ none => nomatch none)
  have unused : grantedDb.savedRequest alice ⟨Octets.replicate 16 0x13⟩ = none := by decide
  have settled : (publishing package).after leadingBytes grantedDb = _ :=
    congrArg Prod.snd (deliver_settled leadingBytes rfl encoded unused rfl admitted
      (publishes_largest size) rfl ⟨rfl, fun receipt => nomatch receipt⟩
      (encodeMessage_of_le (by decide)))
  have state : runCalls leadingBytes Db.empty [grantCall, publishing package] =
      (publishing package).after leadingBytes grantedDb :=
    congrArg ((publishing package).after leadingBytes) run_grantCall
  have granted : grantedDb.isGranted alice bob = true := by decide
  have apart : alice ≠ bob := by decide
  rw [state, settled]
  refine ⟨rfl, granted, rfl, List.find?_eq_none.mpr fun row listed found => ?_, ?_⟩
  · have mine : row.userId = alice := by
      rcases List.mem_append.mp listed with old | new
      · rw [List.mem_singleton.mp old]
      · rw [List.mem_singleton.mp new]
        rfl
    exact apart (mine.symm.trans (of_decide_eq_true found).1)
  · change usage (charge alice _ grantedDb.usageSender) bob = .ok 0
    unfold usage
    rw [find?_charge_other apart]
    decide

theorem takes_largest {db : Db} (offers : Offers package db) :
    execute idle db bob taking.id taking.request = .ok (.keyPackage alice package, { db with
      keyPackages := db.keyPackages.eraseP fun row => row.userId = alice
      packageAllocations := db.packageAllocations ++ [⟨bob, alice, 0⟩] }) := by
  have none : recentAllocations idle db alice = [] := by
    unfold recentAllocations
    rw [offers.allocations]
    rfl
  have hands : Hands idle db bob alice ⟨alice, package⟩ := by
    refine ⟨offers.granted, by rw [none]; decide, by rw [none]; decide, ?_⟩
    rw [offers.packages]
    rfl
  exact hands.reserves

include size in
theorem executes_taking {db : Db} (offers : Offers package db) :
    Executes leadingBytes idle db bob taking.id taking.request (.keyPackage alice package)
      (taking.after leadingBytes db) ∧
    taking.answer leadingBytes db = .ok (.keyPackage alice package) := by
  have encoded : encodeMessage taking.request = .ok ((serde Request).encode taking.request) :=
    encodeMessage_of_le (by decide)
  have fits : wireSize (Response.keyPackage alice package) ≤ maxPayload := by
    have digits : varintSize 10 16384 = 3 := by decide
    rw [wireSize_response, fieldsSize, size, digits, maxPayload]
    norm_num
  have required : requiredBytes ((serde Request).encode taking.request) ≤ 100000 := by
    decide +kernel
  have admitted : admission idle db bob taking.request = .ok true := by
    have charged : ¬(taking.request.isRead || taking.request.isAcknowledge) = true := by decide
    rw [admission, if_neg charged]
    exact admit_idle encoded required offers.ledger (Nat.zero_le _) (by intro _ none; cases none)
  have charged : ¬taking.request.isAcknowledge = true := by decide
  have settled := deliver_settled leadingBytes rfl encoded offers.unused rfl admitted
    (takes_largest offers) rfl ⟨rfl, fun receipt => absurd receipt charged⟩ (encodeMessage_of_le fits)
  exact ⟨⟨rfl, rfl, ⟨rfl, fun receipt => absurd receipt charged⟩, offers.unused, admitted, _, _, _, encoded,
    encodeMessage_of_le fits, takes_largest offers, congrArg Prod.snd settled⟩,
    congrArg Prod.fst settled⟩

include size in
theorem stored_taking {db final : Db} (offers : Offers package db)
    (executes : Executes leadingBytes idle db bob taking.id taking.request
      (.keyPackage alice package) final) : stored db final = 16508 := by
  obtain ⟨next, executed, total⟩ := stored_executes executes
  obtain ⟨-, rfl⟩ := Prod.mk.inj (Except.ok.inj (executed.symm.trans (takes_largest offers)))
  have erased := volume_sublist packageSize
    (List.eraseP_sublist (p := fun row => decide (row.userId = alice)) (l := db.keyPackages))
  have digits : varintSize 10 16384 = 3 := by decide
  rw [total, wireSize_response, fieldsSize, size, digits]
  simp only [stored, volume_same, volume_append, erased, List.map_cons, List.map_nil, List.sum_cons,
    List.sum_nil, allocationSize, Nat.reduceAdd]

include size in
theorem taken_largest {db : Db} (offers : Offers package db) :
    executed leadingBytes db taking = some (.keyPackage alice package) ∧
    stored db (taking.after leadingBytes db) = 16508 ∧ cost taking.request = 16435 := by
  obtain ⟨executes, answer⟩ := executes_taking size offers
  have total := stored_taking size offers executes
  refine ⟨?_, total, ?_⟩
  · rcases executed_cases leadingBytes db taking with ⟨-, same⟩ | ⟨response, ran, given, -⟩
    · rw [same] at total
      simp [stored] at total
    · rw [ran, Except.ok.inj (given.symm.trans answer)]
  · rw [cost_executes executes]
    exact congrArg (fun n => 3 * n + 16384) (wireSize_reserve alice)

end Largest

def largest : Bytes := List.replicate maxKeyPackageBytes 0

theorem length_largest : largest.length = 16384 := List.length_replicate

def offering : Db := runCalls leadingBytes Db.empty [grantCall, publishing largest]

/-- The reservation of the largest package is journaled and stores 73 bytes more than it is charged. -/
theorem reservation_exceeds_charge :
    executed leadingBytes offering taking = some (.keyPackage alice largest) ∧
    stored offering (taking.after leadingBytes offering) = 16508 ∧ cost taking.request = 16435 :=
  taken_largest length_largest (offers_publishing length_largest)

end Grotto.Relay.Accounting
