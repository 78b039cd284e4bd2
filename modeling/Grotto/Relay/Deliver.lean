/- GID: Grotto/Relay/Deliver
   digest: Execution of the nine delivery requests and the journaled transaction around them. -/

import Grotto.Relay.Storage
import Mathlib.Data.List.Sort

set_option autoImplicit false

namespace Grotto.Relay.Deliver

open Format.Varint (Bytes)
open Format.Postcard (Octets)
open Protocol.Records Protocol.Wire Protocol.Transcripts
open Storage

abbrev Outcome := Except StorageError (Response × Db)

def encodeStored {α : Type} [Serde α] (record : α) : Except StorageError Bytes :=
  (encodeMessage record).mapError fun _ => corrupt

def decodeStored (α : Type) [Serde α] (record : Bytes) : Except StorageError α :=
  (decodeMessage α record).mapError fun _ => corrupt

def reject (db : Db) (reason : Rejection) : Outcome := .ok (.rejected reason, db)

def createRoom (here : Surroundings) (db : Db) (user : UserId) (name : String) : Outcome :=
  match normalizeRoomName name with
  | .error _ => reject db .invalid
  | .ok name =>
    if (db.rooms.filter fun r => r.createdBy = user).length ≥ 64 then reject db .quota
    else
      match here.newRoom with
      | none => .error .random
      | some room => do
          let db ← db.insertRoom ⟨room, name, user⟩
          .ok (.roomCreated room, db.subscribe room user)

def publishKeyPackages (db : Db) (user : UserId) (packages : List Bytes) : Outcome :=
  if packages = [] ∨ packages.length > 64 ∨
      (∃ p ∈ packages, p = [] ∨ p.length > maxKeyPackageBytes) ∨
      (packages.map List.length).sum > maxPayload then
    reject db .invalid
  else if (db.keyPackages.filter fun r => r.userId = user).length + packages.length > 64 then
    reject db .quota
  else
    .ok (.keyPackagesPublished (UInt64.ofNat packages.length),
      { db with keyPackages := db.keyPackages ++ packages.map (KeyPackageRow.mk user) })

def setFetchGrant (db : Db) (user requester : UserId) (allowed : Bool) : Outcome :=
  if allowed then
    .ok (.fetchGrantSet,
      if db.isGranted user requester then db
      else { db with fetchGrants := db.fetchGrants ++ [(user, requester)] })
  else
    .ok (.fetchGrantSet,
      { db with fetchGrants := db.fetchGrants.filter fun row => row ≠ (user, requester) })

def recentAllocations (here : Surroundings) (db : Db) (recipient : UserId) : List AllocationRow :=
  db.packageAllocations.filter fun row =>
    row.recipient = recipient ∧ row.allocatedAt > here.selectTime - 3600

def reserveKeyPackage (here : Surroundings) (db : Db) (user recipient : UserId) : Outcome :=
  if ¬db.isGranted recipient user then reject db .unauthorized
  else
    let recent := recentAllocations here db recipient
    if recent.length ≥ 16 ∨ (recent.filter fun row => row.requester = user).length ≥ 4 then
      reject db .overloaded
    else
      match db.keyPackages.find? fun row => row.userId = recipient with
      | none => reject db .notFound
      | some row =>
        .ok (.keyPackage recipient row.keyPackage,
          { db with
            keyPackages := db.keyPackages.eraseP fun row => row.userId = recipient
            packageAllocations := db.packageAllocations ++ [⟨user, recipient, here.insertTime⟩] })

/-- The admission checks of an append before the head is compared. -/
def inadmissible (operation : Append) : Bool :=
  operation.body.isEmpty || operation.body.length > maxMlsBlobBytes ||
    operation.parent.toNat ≥ i64Max ||
    operation.welcome.any (fun w => w.body.isEmpty || w.body.length > maxMlsBlobBytes) ||
    operation.body.length + (operation.welcome.map fun w => w.body.length).getD 0 + 256 > maxPayload

/-- The Welcome of an accepted event: a row with cursor zero and a subscription. -/
def publishWelcome (db : Db) (user : UserId) (id : MessageId) (room : RoomId) (sequence : Nat)
    (welcome : WelcomeAttachment) : Except StorageError Db :=
  match db.rooms.find? fun r => r.roomId = room with
  | none => .error .database
  | some row => do
      let delivery : WelcomeDelivery :=
        ⟨row.name, 0, id, room, UInt64.ofNat sequence, user, welcome⟩
      let record ← encodeStored delivery
      let db ← db.insertWelcome welcome.recipient record
      .ok (db.subscribe room welcome.recipient)

def appendRoomOperation (db : Db) (user : UserId) (id : MessageId) (operation : Append) : Outcome :=
  if ¬db.isSubscribed operation.room user then reject db .unauthorized
  else if inadmissible operation then reject db .invalid
  else
    let head := db.head operation.room
    if head ≠ operation.parent.toNat then
      .ok (.headConflict operation.room (UInt64.ofNat head), db)
    else if db.hasEvent id then reject db .requestConflict
    else do
      let event : Event := ⟨id, user, operation⟩
      let record ← encodeStored event
      let db ← db.insertEvent ⟨operation.room, head + 1, id, user, record⟩
      match operation.welcome with
      | none => .ok (.appendAccepted event, db)
      | some welcome => do
          let db ← publishWelcome db user id operation.room (head + 1) welcome
          .ok (.appendAccepted event, db)

/-- The page loop: rows are taken until the count or the stored bytes reach their budget. -/
def takePage {ρ α : Type} (size : ρ → Nat) (read : ρ → Except StorageError α) :
    List ρ → List α → Nat → Except StorageError (List α × Bool)
  | [], taken, _ => .ok (taken, false)
  | row :: rows, taken, bytes =>
    if taken.length = pageSize ∨ bytes + size row > maxPayload - 96 then .ok (taken, true)
    else
      match read row with
      | .error e => .error e
      | .ok value => takePage size read rows (taken ++ [value]) (bytes + size row)

/-- `... AND sequence>?2 ORDER BY sequence LIMIT 101`. -/
def eventRows (db : Db) (room : RoomId) (start : Nat) : List EventRow :=
  (List.insertionSort (fun a b => a.sequence ≤ b.sequence)
    (db.deliveryEvents.filter fun row => row.room = room ∧ row.sequence > start)).take 101

def fetchRoomEvents (db : Db) (user : UserId) (room : RoomId) (start : UInt64) :
    Except StorageError Response :=
  if start.toNat > i64Max then .ok (.rejected .invalid)
  else if ¬db.isSubscribed room user then .ok (.rejected .unauthorized)
  else do
    let (events, more) ← takePage (fun row : EventRow => row.record.length)
      (fun row => decodeStored Event row.record) (eventRows db room start.toNat) [] 0
    .ok (.roomEvents room start events more)

/-- The rooms joined with their subscriptions, above a room, with their heads. -/
def indexRows (db : Db) (user : UserId) (start : Option RoomId) : List RoomHead :=
  (List.insertionSort (fun a b => a.room ≤ b.room)
    (db.rooms.flatMap fun r =>
      (db.roomSubscribers.filter fun s =>
        s.1 = r.roomId ∧ s.2 = user ∧ (start.all fun room => room < r.roomId)).map
          fun _ => ⟨r.roomId, r.name, UInt64.ofNat (db.head r.roomId)⟩)).take 101

def syncIndex (db : Db) (user : UserId) (start : Option RoomId) : Response :=
  let rooms := indexRows db user start
  .syncIndex (rooms.take pageSize) (decide (rooms.length > pageSize))

/-- `... AND cursor>?2 ORDER BY cursor LIMIT 101`. -/
def welcomeRows (db : Db) (user : UserId) (start : Nat) : List WelcomeRow :=
  (List.insertionSort (fun a b => a.cursor ≤ b.cursor)
    (db.deliveryWelcomes.filter fun row => row.recipient = user ∧ row.cursor > start)).take 101

def readWelcome (row : WelcomeRow) : Except StorageError WelcomeDelivery := do
  let welcome ← decodeStored WelcomeDelivery row.record
  .ok { welcome with cursor := UInt64.ofNat row.cursor }

def fetchWelcomes (db : Db) (user : UserId) (start : UInt64) : Except StorageError Response :=
  if start.toNat > i64Max then .ok (.rejected .invalid)
  else do
    let (welcomes, more) ← takePage (fun row : WelcomeRow => row.record.length) readWelcome
      (welcomeRows db user start.toNat) [] 0
    .ok (.welcomes start welcomes more)

def acknowledgeEvent (db : Db) (user : UserId) (event : MessageId) : Bool :=
  db.deliveryEvents.any fun e => e.eventId = event ∧ db.isSubscribed e.room user

def acknowledgeWelcomes (db : Db) (user : UserId) : List UInt64 → Except StorageError Response
  | [] => .ok .acknowledged
  | cursor :: rest => do
      let bound ← bindU64 cursor.toNat
      if db.deliveryWelcomes.any fun w => w.cursor = bound ∧ w.recipient = user then
        acknowledgeWelcomes db user rest
      else .ok (.rejected .unauthorized)

def acknowledge (db : Db) (user : UserId) (events : List MessageId) (welcomes : List UInt64) :
    Except StorageError Response :=
  if events.length + welcomes.length > pageSize then .ok (.rejected .invalid)
  else if events.all (acknowledgeEvent db user) then acknowledgeWelcomes db user welcomes
  else .ok (.rejected .unauthorized)

def execute (here : Surroundings) (db : Db) (user : UserId) (id : MessageId) : Request → Outcome
  | .createRoom name => createRoom here db user name
  | .publishKeyPackages packages => publishKeyPackages db user packages
  | .setFetchGrant requester allowed => setFetchGrant db user requester allowed
  | .reserveKeyPackage recipient => reserveKeyPackage here db user recipient
  | .appendRoomOperation operation => appendRoomOperation db user id operation
  | .fetchRoomEvents room start => (fetchRoomEvents db user room start).map (·, db)
  | .syncIndex start => .ok (syncIndex db user start, db)
  | .fetchWelcomes start => (fetchWelcomes db user start).map (·, db)
  | .acknowledge events welcomes => (acknowledge db user events welcomes).map (·, db)

/-- Outcomes that may change on a later retry leave no result behind. -/
def isTransient : Response → Bool
  | .rejected .quota | .rejected .overloaded | .rejected .internal => true
  | _ => false

/-- A receipt names one event or one Welcome under its content-derived identifier. -/
def receiptValid (sha256 : Hash) (user : UserId) (id : MessageId) : Request → Bool
  | .acknowledge events welcomes =>
    events.length + welcomes.length = 1 ∧ id = acknowledgementId sha256 user events welcomes
  | _ => true

/-- The byte ledgers of the sender and, for an append, of the room. -/
def chargeUsage (db : Db) (user : UserId) (request : Request) (wire : Bytes) : Db :=
  if request.isAcknowledge then db
  else
    { db with
      usageSender := charge user (requiredBytes wire) db.usageSender
      usageRoom := match chargeRoom request with
        | none => db.usageRoom
        | some room => charge room (requiredBytes wire) db.usageRoom }

/-- Charging the ledgers and journaling the result of an executed request. -/
def record (db : Db) (user : UserId) (id : MessageId) (request : Request) (hash : Digest)
    (wire : Bytes) (response : Response) : Except StorageError Db := do
  let charged := chargeUsage db user request wire
  let bytes ← encodeStored response
  charged.insertRequest ⟨user, id, hash, bytes⟩

/-- Storage admission applies to durable requests other than receipts. -/
def admission (here : Surroundings) (db : Db) (user : UserId) (request : Request) :
    Except StorageError Bool :=
  if request.isRead || request.isAcknowledge then .ok true else admits here db user request

/-- A request under an unused identifier; `none` is a transaction dropped without a commit. -/
def perform (sha256 : Hash) (here : Surroundings) (db : Db) (user : UserId) (id : MessageId)
    (request : Request) (wire : Bytes) : Except StorageError (Response × Option Db) :=
  if ¬receiptValid sha256 user id request then .ok (.rejected .invalid, none)
  else
    match admission here db user request with
    | .error e => .error e
    | .ok false => .ok (.rejected .quota, none)
    | .ok true =>
      match execute here db user id request with
      | .error e => .error e
      | .ok (response, next) =>
        if request.isAcknowledge ∧ response ≠ .acknowledged then .ok (response, none)
        else if request.isRead ∨ isTransient response then .ok (response, some next)
        else
          match record next user id request (sha256 wire) wire response with
          | .error e => .error e
          | .ok final => .ok (response, some final)

/-- The body of the transaction: a journaled result is replayed to its own request only. -/
def transact (sha256 : Hash) (here : Surroundings) (db : Db) (user : UserId) (id : MessageId)
    (request : Request) : Except StorageError (Response × Option Db) :=
  match encodeMessage request with
  | .error _ => .error corrupt
  | .ok wire =>
    match db.savedRequest user id with
    | some row =>
      if row.hash ≠ sha256 wire then .ok (.rejected .requestConflict, none)
      else (decodeStored Response row.response).map (·, none)
    | none => perform sha256 here db user id request wire

/-- `RelayState::deliver`: an error or a dropped transaction changes no table. -/
def deliver (sha256 : Hash) (here : Surroundings) (db : Db) (user : UserId) (id : MessageId)
    (request : Request) : Except StorageError Response × Db :=
  match here.fault with
  | some fault => (.error fault.error, db)
  | none =>
    match transact sha256 here db user id request with
    | .error e => (.error e, db)
    | .ok (response, none) => (.ok response, db)
    | .ok (response, some next) => (.ok response, next)

structure Call where
  here : Surroundings
  user : UserId
  id : MessageId
  request : Request

def Call.answer (sha256 : Hash) (db : Db) (c : Call) : Except StorageError Response :=
  (deliver sha256 c.here db c.user c.id c.request).1

def Call.after (sha256 : Hash) (db : Db) (c : Call) : Db :=
  (deliver sha256 c.here db c.user c.id c.request).2

def runCalls (sha256 : Hash) (db : Db) (calls : List Call) : Db :=
  calls.foldl (Call.after sha256) db

theorem runCalls_concat (sha256 : Hash) (db : Db) (calls : List Call) (c : Call) :
    runCalls sha256 db (calls ++ [c]) = c.after sha256 (runCalls sha256 db calls) := by
  unfold runCalls
  rw [List.foldl_append]
  rfl

def history (sha256 : Hash) : Db → List Call → List (Call × Except StorageError Response)
  | _, [] => []
  | db, c :: calls => (c, c.answer sha256 db) :: history sha256 (c.after sha256 db) calls

/-- A digest that keeps the first bytes: collision free on short requests. -/
def leadingBytes : Hash := fun bytes =>
  ⟨(bytes ++ List.replicate 32 0).take 32, by simp⟩

def idle : Surroundings where
  limits := StorageLimits.default
  pageSize := 4096
  pageCount := 16
  wal := 0
  freeBytes := 1024 * 1024 * 1024
  newRoom := some ⟨Octets.replicate 16 0x22⟩
  selectTime := 0
  insertTime := 0
  fault := none

def alice : UserId := ⟨Octets.replicate 16 0x33⟩
def bob : UserId := ⟨Octets.replicate 16 0x55⟩
def firstId : MessageId := ⟨Octets.replicate 16 0x11⟩

/-- The call that grants `bob` access to the packages of `alice`. -/
def grantCall : Call := ⟨idle, alice, firstId, .setFetchGrant bob true⟩

def revokeCall : Call := ⟨idle, alice, ⟨Octets.replicate 16 0x12⟩, .setFetchGrant bob false⟩

end Grotto.Relay.Deliver
