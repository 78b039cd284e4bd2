/- GID: Grotto/Client/Groups
   digest: `MlsSession`: cached groups over the rows of the database. -/

import Grotto.Client.Calls

set_option autoImplicit false

namespace Grotto.Client.Groups

open Format.Varint (Bytes)
open Protocol.Records Protocol.Transcripts
open Base.Program Library
open Calls

variable {mls : Mls}

inductive Processed
  | application (plaintext author : Bytes)
  | commit (epoch : UInt64)
  deriving DecidableEq

def randomness : Service mls mls.Seed := fun here s =>
  (.ok (here.seed s.calls), { s with calls := s.calls + 1 })

/-- The identity provider of one library call; its lookups share the call's fate. -/
def provider : Service mls Provider := fun here s =>
  (.ok fun identity => !s.poisoned && !here.fault s.calls && s.store.verifies identity,
    { s with calls := s.calls + 1 })

def liftMls {α : Type} (r : Except MlsError α) : Service mls α :=
  Local.ofExcept (r.mapError Error.mls)

/-- `from_wire(..)?`. -/
def parsed (bytes : Bytes) : Service mls mls.Message :=
  require (.text "mls parse failed") (fromWire mls bytes)

/-- `to_wire(..)?`. -/
def serialized (message : mls.Message) : Service mls Bytes :=
  require (.text "mls serialize failed") (toWire mls message)

def verifyMembers (e : Error) : List SigningIdentity → Service mls Unit
  | [] => pure ()
  | identity :: rest => do
      let verified ← orFail e (query fun s => s.verifies identity)
      if verified then verifyMembers e rest else Local.fail e

def members (group : mls.Group) : List SigningIdentity := (mls.roster group).map Prod.snd

def dropGroups : Service mls Unit := Local.modify fun s => { s with groups := [] }

def cacheGroup (room : RoomId) (group : mls.Group) : Service mls Unit :=
  Local.modify fun s => { s with groups := (room, group) :: s.groups }

def setGroup (room : RoomId) (group : mls.Group) : Service mls Unit :=
  Local.modify fun s => { s with groups := s.groups.map fun entry =>
    if entry.1 = room then (room, group) else entry }

def loadGroup (room : RoomId) : Service mls mls.Group :=
  orFail (.text "no local MLS group for room") do
    let found ← query fun s => s.mlsGroups room
    require (.text "no local MLS group for room") found

/-- A cached group, or the stored one once its members verify. At most eight are cached. -/
def groupMut (room : RoomId) : Service mls mls.Group := do
  let s ← Local.get
  match s.groups.lookup room with
  | some group => pure group
  | none => do
      onlyIf (s.groups.length ≥ 8) dropGroups
      let group ← loadGroup room
      verifyMembers (.text "stored group contains an unverified or changed member") (members group)
      cacheGroup room group
      pure group

def hasGroup (room : RoomId) : Service mls Bool := do
  match ← (groupMut room).attempt with
  | .ok _ => pure true
  | .error _ => pure false

/-- `write_to_storage`, which requires an open transaction. -/
def persist (room : RoomId) : Service mls Unit := do
  let group ← groupMut room
  orFail (.mls .groupStorage) do
    let s ← Local.get
    if s.owner then update fun store => store.writeGroup room group
    else Local.fail (.store (.invalidData "MLS write requires an application transaction"))

def createGroup (client : mls.MlsClient) (room : RoomId) : Service mls UInt64 := do
  match ← (groupMut room).attempt with
  | .ok group => pure (mls.currentEpoch group)
  | .error _ => do
      let seed ← randomness
      let group ← liftMls (mls.createGroupWithId client room.bytes.toList seed)
      cacheGroup room group
      persist room
      pure (mls.currentEpoch group)

def containsUser (room : RoomId) (user : UserId) : Service mls Bool := do
  let group ← groupMut room
  pure ((members group).any fun identity => decide (identity.identifier = some user.bytes.toList))

def encryptBound (room : RoomId) (plaintext aad : Bytes) : Service mls (UInt64 × Bytes) := do
  let group ← groupMut room
  if mls.hasPendingCommit group then Local.fail (.text "room has an unresolved commit")
  else do
    let seed ← randomness
    let (result, next) := mls.encryptApplicationMessage group plaintext aad seed
    setGroup room next
    let message ← liftMls result
    let bytes ← serialized message
    persist room
    pure (mls.currentEpoch group, bytes)

def buildPendingAdd (room : RoomId) (package aad : Bytes) :
    Service mls (UInt64 × Bytes × Bytes) := do
  let package ← parsed package
  let group ← groupMut room
  if mls.hasPendingCommit group then Local.fail (.text "room has an unresolved commit")
  else do
    let seed ← randomness
    let identities ← provider
    let (result, next) := mls.commitAdd identities group package aad seed
    setGroup room next
    let (message, welcomes) ← liftMls result
    let body ← serialized message
    let first ← require (.text "missing Welcome") welcomes.head?
    let welcome ← serialized first
    persist room
    pure (mls.currentEpoch group, body, welcome)

def discardPending (room : RoomId) : Service mls Unit := do
  let group ← groupMut room
  setGroup room (mls.clearPendingCommit group)
  persist room

def applyAcceptedCommit (room : RoomId) : Service mls Unit := do
  let group ← groupMut room
  let identities ← provider
  let (result, next) := mls.applyPendingCommit identities group
  setGroup room next
  liftMls result
  persist room

/-- A failed library call blocks on an unverified identity, passes a storage failure on, and
otherwise rejects the event. -/
def processingError : MlsError → Error
  | .identityProvider => .processing .blocked
  | .groupStorage => .mls .groupStorage
  | .other => .processing .rejected

/-- The sender, authenticated data and outcome of a message of the announced content type. -/
def boundOutcome (contentType : MlsContentType) (sender : UserId) (epoch : UInt64) :
    Received → Option (Nat × Bytes × Processed)
  | .application index aad data =>
    if contentType = .application then some (index, aad, .application data sender.bytes.toList)
    else none
  | .commit index aad isExternal =>
    if contentType = .commit ∧ ¬isExternal then some (index, aad, .commit epoch) else none
  | .other => none

/-- The author of an application message is the authenticated sender's credential. -/
def withAuthor (author : Bytes) : Processed → Processed
  | .application plaintext _ => .application plaintext author
  | .commit epoch => .commit epoch

def processBound (event : Event) : Service mls Processed := do
  let room := event.operation.room
  let incoming ← require (.processing .rejected) (fromWire mls event.operation.body)
  if mls.epoch incoming ≠ some event.operation.epoch then Local.fail (.processing .rejected)
  else do
    let group ← groupMut room
    if event.operation.epoch ≠ mls.currentEpoch group then
      if event.operation.epoch > mls.currentEpoch group then Local.fail (.processing .blocked)
      else Local.fail (.processing .rejected)
    else do
      call
      let identities ← provider
      let (result, next) := mls.processIncomingMessage identities group incoming
      setGroup room next
      let received ← Local.ofExcept (result.mapError processingError)
      let (sender, aad, outcome) ← require (.processing .rejected)
        (boundOutcome event.operation.contentType event.sender (mls.currentEpoch next) received)
      -- The sender is looked up in the roster as it was before the message.
      let leaf ← require (.processing .rejected) ((mls.roster group).lookup sender)
      let actual ← require (.processing .rejected) leaf.identifier
      if actual ≠ event.sender.bytes.toList ∨
          aad ≠ eventAuthenticatedData room event.id event.operation.parent then
        Local.fail (.processing .rejected)
      else do
        verifyMembers (.processing .blocked) (members next)
        persist room
        pure (withAuthor actual outcome)

def join (client : mls.MlsClient) (room : RoomId) (welcome : Bytes) : Service mls UInt64 := do
  if ← hasGroup room then do
    let group ← groupMut room
    pure (mls.currentEpoch group)
  else do
    let welcome ← parsed welcome
    call
    let identities ← provider
    let s ← Local.get
    let group ← liftMls (mls.joinGroup client identities s.store.mlsPackages welcome)
    if mls.groupId group ≠ room.bytes.toList then
      Local.fail (.text "welcome is for a different group than the envelope claims")
    else do
      verifyMembers (.text "welcome contains an unverified or changed member") (members group)
      cacheGroup room group
      persist room
      pure (mls.currentEpoch group)

def generateKeyPackages (client : mls.MlsClient) : Nat → Service mls (List Bytes)
  | 0 => pure []
  | count + 1 => do
      call
      let seed ← randomness
      let s ← Local.get
      let (message, packages) ←
        liftMls (mls.generateKeyPackageMessage client s.store.mlsPackages seed)
      Local.modify fun s => { s with store := { s.store with mlsPackages := packages } }
      let bytes ← serialized message
      let rest ← generateKeyPackages client count
      pure (bytes :: rest)

end Grotto.Client.Groups
