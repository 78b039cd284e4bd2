/- GID: Grotto/Relay/Storage
   digest: Tables of the relay database, their constraints, and storage admission. -/

import Grotto.Protocol.Transcripts

set_option autoImplicit false

namespace Grotto.Relay.Storage

open Format.Varint (Bytes)
open Protocol.Records Protocol.Wire

inductive StorageError
  | file
  | database
  | invalidStoredData (reason : String)
  | lockPoisoned
  | random
  deriving DecidableEq

def corrupt : StorageError := .invalidStoredData "invalid V9 delivery record"

structure RoomRow where
  roomId : RoomId
  name : String
  createdBy : UserId
  deriving DecidableEq

structure KeyPackageRow where
  userId : UserId
  keyPackage : Bytes
  deriving DecidableEq

structure AllocationRow where
  requester : UserId
  recipient : UserId
  allocatedAt : Int
  deriving DecidableEq

structure RequestRow where
  userId : UserId
  requestId : MessageId
  hash : Digest
  response : Bytes
  deriving DecidableEq

structure EventRow where
  room : RoomId
  sequence : Nat
  eventId : MessageId
  sender : UserId
  record : Bytes
  deriving DecidableEq

structure WelcomeRow where
  cursor : Nat
  recipient : UserId
  record : Bytes
  deriving DecidableEq

/-- The delivery tables. Rows stand in the order they were inserted, the order of their rowids. -/
structure Db where
  rooms : List RoomRow := []
  roomSubscribers : List (RoomId × UserId) := []
  keyPackages : List KeyPackageRow := []
  fetchGrants : List (UserId × UserId) := []
  packageAllocations : List AllocationRow := []
  usageSender : List (UserId × Nat) := []
  usageRoom : List (RoomId × Nat) := []
  deliveryRequests : List RequestRow := []
  deliveryEvents : List EventRow := []
  deliveryWelcomes : List WelcomeRow := []
  deriving DecidableEq

def Db.empty : Db := {}

structure StorageLimits where
  global : UInt64
  sender : UInt64
  room : UInt64
  reserve : UInt64
  deriving DecidableEq

def StorageLimits.default : StorageLimits where
  global := 1024 * 1024 * 1024
  sender := 100 * 1024 * 1024
  room := 100 * 1024 * 1024
  reserve := 64 * 1024 * 1024

/-- Failures below the repository: the file system, SQLite and the connection lock. -/
inductive Fault
  | file | database | lockPoisoned
  deriving DecidableEq

def Fault.error : Fault → StorageError
  | .file => .file
  | .database => .database
  | .lockPoisoned => .lockPoisoned

/-- What one call reads from outside the tables. A fault anywhere in a call abandons it. -/
structure Surroundings where
  limits : StorageLimits
  pageSize : UInt64
  pageCount : UInt64
  wal : UInt64
  freeBytes : Nat
  newRoom : Option RoomId
  selectTime : Int
  insertTime : Int
  fault : Option Fault
  deriving DecidableEq

/-- Binding a `u64` parameter: the column type is `i64`. -/
def bindU64 (n : Nat) : Except StorageError Nat :=
  if n ≤ i64Max then .ok n else .error .database

def u64Max : Nat := 2 ^ 64 - 1
def saturatingAdd (a b : Nat) : Nat := min (a + b) u64Max
def saturatingMul (a b : Nat) : Nat := min (a * b) u64Max

/-- `coalesce((SELECT bytes ...),0)`; a sum beyond `i64` has become a real and no longer reads. -/
def usage {κ : Type} [DecidableEq κ] (ledger : List (κ × Nat)) (k : κ) : Except StorageError Nat :=
  match ledger.find? fun row => row.1 = k with
  | none => .ok 0
  | some row => bindU64 row.2

/-- `INSERT ... ON CONFLICT DO UPDATE SET bytes=bytes+excluded.bytes`. -/
def charge {κ : Type} [DecidableEq κ] (k : κ) (bytes : Nat) : List (κ × Nat) → List (κ × Nat)
  | [] => [(k, bytes)]
  | row :: rows => if row.1 = k then (k, row.2 + bytes) :: rows else row :: charge k bytes rows

theorem find?_charge_other {κ : Type} [DecidableEq κ] {k j : κ} (apart : k ≠ j) (bytes : Nat)
    (ledger : List (κ × Nat)) :
    ((charge k bytes ledger).find? fun row => row.1 = j) = ledger.find? fun row => row.1 = j := by
  induction ledger with
  | nil => simp [charge, apart]
  | cons row rows ih =>
    unfold charge
    by_cases here : row.1 = k
    · simp [here, apart]
    · rw [if_neg here, List.find?_cons, List.find?_cons, ih]

theorem find?_charge {κ : Type} [DecidableEq κ] (k : κ) (bytes : Nat) (ledger : List (κ × Nat)) :
    ((charge k bytes ledger).find? fun row => row.1 = k) =
      some (k, ((ledger.find? fun row => row.1 = k).map Prod.snd).getD 0 + bytes) := by
  induction ledger with
  | nil => simp [charge]
  | cons row rows ih =>
    unfold charge
    by_cases here : row.1 = k
    · simp [here]
    · simpa [here] using ih

/-- Bytes reserved for a request: rows, indexes, result journal and the Welcome copy. -/
def requiredBytes (wire : Bytes) : Nat :=
  saturatingAdd (saturatingMul wire.length 3) (16 * 1024)

def chargeRoom : Request → Option RoomId
  | .appendRoomOperation operation => some operation.room
  | _ => none

def ledgersAdmit (here : Surroundings) (db : Db) (user : UserId) (request : Request)
    (required : Nat) : Except StorageError Bool := do
  let used ← usage db.usageSender user
  if saturatingAdd used required > here.limits.sender.toNat then return false
  else
    match chargeRoom request with
    | none => return true
    | some room => do
        let used ← usage db.usageRoom room
        return decide (saturatingAdd used required ≤ here.limits.room.toNat)

/-- `StorageLimits::admit`. -/
def admits (here : Surroundings) (db : Db) (user : UserId) (request : Request) :
    Except StorageError Bool :=
  match encodeMessage request with
  | .error _ => .error (.invalidStoredData "cannot encode request")
  | .ok wire =>
    let required := requiredBytes wire
    let logical := saturatingMul here.pageSize.toNat here.pageCount.toNat
    let global := here.limits.global.toNat
    let reserve := here.limits.reserve.toNat
    if wire.length > maxPayload then .ok false
    else if saturatingAdd logical required > global then .ok false
    else if saturatingAdd (saturatingAdd logical here.wal.toNat) required >
        saturatingAdd global reserve then .ok false
    else do
      let within ← ledgersAdmit here db user request required
      return within && decide (here.freeBytes ≥ saturatingAdd reserve required)

def Db.isSubscribed (db : Db) (room : RoomId) (user : UserId) : Bool :=
  db.roomSubscribers.any fun row => row = (room, user)

def Db.subscribe (db : Db) (room : RoomId) (user : UserId) : Db :=
  if db.isSubscribed room user then db
  else { db with roomSubscribers := db.roomSubscribers ++ [(room, user)] }

def Db.isGranted (db : Db) (recipient requester : UserId) : Bool :=
  db.fetchGrants.any fun row => row = (recipient, requester)

/-- `coalesce(max(sequence),0)` over a room. -/
def Db.head (db : Db) (room : RoomId) : Nat :=
  ((db.deliveryEvents.filter fun row => row.room = room).map EventRow.sequence).foldl max 0

def Db.hasEvent (db : Db) (id : MessageId) : Bool :=
  db.deliveryEvents.any fun row => row.eventId = id

def Db.savedRequest (db : Db) (user : UserId) (id : MessageId) : Option RequestRow :=
  db.deliveryRequests.find? fun row => row.userId = user ∧ row.requestId = id

/-- The table's primary key refuses a second room of one identifier. -/
def Db.insertRoom (db : Db) (row : RoomRow) : Except StorageError Db :=
  if db.rooms.any fun r => r.roomId = row.roomId then .error .database
  else .ok { db with rooms := db.rooms ++ [row] }

/-- Both keys of the log: `(room, sequence)` and `event_id`. -/
def Db.insertEvent (db : Db) (row : EventRow) : Except StorageError Db := do
  let _ ← bindU64 row.sequence
  if db.deliveryEvents.any fun r =>
      (r.room = row.room ∧ r.sequence = row.sequence) ∨ r.eventId = row.eventId then
    .error .database
  else .ok { db with deliveryEvents := db.deliveryEvents ++ [row] }

/-- Cursors are `AUTOINCREMENT`; past the largest one the database is full. -/
def Db.lastCursor (db : Db) : Nat := (db.deliveryWelcomes.map WelcomeRow.cursor).foldl max 0

def Db.insertWelcome (db : Db) (recipient : UserId) (record : Bytes) : Except StorageError Db :=
  if db.lastCursor + 1 ≤ i64Max then
    .ok { db with
      deliveryWelcomes := db.deliveryWelcomes ++ [⟨db.lastCursor + 1, recipient, record⟩] }
  else .error .database

def Db.insertRequest (db : Db) (row : RequestRow) : Except StorageError Db :=
  if (db.savedRequest row.userId row.requestId).isSome then .error .database
  else .ok { db with deliveryRequests := db.deliveryRequests ++ [row] }

section Subscribe

variable (db : Db) (room : RoomId) (user : UserId)

@[simp] theorem subscribe_rooms : (db.subscribe room user).rooms = db.rooms := by
  unfold Db.subscribe
  split <;> rfl
@[simp] theorem subscribe_events : (db.subscribe room user).deliveryEvents = db.deliveryEvents := by
  unfold Db.subscribe
  split <;> rfl
@[simp] theorem subscribe_welcomes :
    (db.subscribe room user).deliveryWelcomes = db.deliveryWelcomes := by
  unfold Db.subscribe
  split <;> rfl
@[simp] theorem subscribe_requests :
    (db.subscribe room user).deliveryRequests = db.deliveryRequests := by
  unfold Db.subscribe
  split <;> rfl
@[simp] theorem subscribe_packages : (db.subscribe room user).keyPackages = db.keyPackages := by
  unfold Db.subscribe
  split <;> rfl
@[simp] theorem subscribe_grants : (db.subscribe room user).fetchGrants = db.fetchGrants := by
  unfold Db.subscribe
  split <;> rfl

theorem subscribe_usageSender : (db.subscribe room user).usageSender = db.usageSender := by
  unfold Db.subscribe
  split <;> rfl

theorem subscribe_usageRoom : (db.subscribe room user).usageRoom = db.usageRoom := by
  unfold Db.subscribe
  split <;> rfl

theorem subscribe_packageAllocations :
    (db.subscribe room user).packageAllocations = db.packageAllocations := by
  unfold Db.subscribe
  split <;> rfl

theorem subscribe_extends : db.roomSubscribers <+: (db.subscribe room user).roomSubscribers := by
  unfold Db.subscribe
  split
  · exact List.prefix_refl _
  · exact List.prefix_append _ _

end Subscribe

end Grotto.Relay.Storage
