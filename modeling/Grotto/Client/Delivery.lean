/- GID: Grotto/Client/Delivery
   digest: `Engine`: commands, completion of answers, attempts, recovery and the drive loop. -/

import Grotto.Client.Groups

set_option autoImplicit false

namespace Grotto.Client.Delivery

open Format.Varint (Bytes)
open Format.Postcard (Octets)
open Protocol.Records Protocol.Wire Protocol.Transcripts Protocol.Hex
open Base.Program Contacts Library Tables
open Calls Groups

/-- The identity a client runs under. Its identity rows exist before the engine does. -/
structure Engine (mls : Mls) where
  user : UserId
  client : mls.MlsClient
  crypto : Crypto
  transportKey : Ed25519PublicKeyBytes
  mlsKey : Octets 32
  sign : Bytes → Ed25519SignatureBytes

/-- `ContactCard::own`: the signature covers the other fields. -/
def Engine.ownCard {mls : Mls} (e : Engine mls) : ContactCard :=
  let unsigned : ContactCard := ⟨e.user, e.transportKey, e.mlsKey, Octets.replicate 64 0⟩
  { unsigned with signature := e.sign unsigned.transcript }

inductive UserCommand
  | setFetchGrant (requester : UserId) (allowed : Bool)
  | contactExport
  | contactImport (card fingerprint : List Char)
  | listContacts
  | createRoom (name : String)
  | publishKeyPackages (count : Nat)
  | addToRoom (room : RoomId) (user : UserId)
  | listRooms
  | sendRoomMessage (room : RoomId) (body : Bytes)
  | fetchRoomHistory (room : RoomId) (beforeSequence : Option UInt64)
  | syncWelcomes

/-- The programs of the engine: requests go out under an identifier and are answered or lost. -/
abbrev Program (mls : Mls) :=
  Prog (Surroundings mls) (Session mls) Error MessageId (MessageId × Request) Response

variable {mls : Mls}

/-- SQLite integers are signed: a larger value is refused when it is bound. -/
def bindU64 (n : Nat) : Service mls Nat :=
  if n ≤ i64Max then pure n else Local.fail (.store .database)

/-- An intent of the room has an attempt in the outbox that is not an event of the inbox. -/
def isUnresolved (s : Store mls) (room : RoomId) : Bool :=
  s.deliveryIntents.any fun row =>
    match row.attempt with
    | none => false
    | some attempt => decide (row.room = room) && (s.findOutbox attempt).isSome &&
        !s.deliveryInbox.any fun e => decide (e.eventId = attempt)

def unresolved (room : RoomId) : Service mls Bool := query fun s => isUnresolved s room

def cursorOf (s : Store mls) (room : RoomId) : Nat := (s.deliveryCursors room).getD 0

def cursor (room : RoomId) : Service mls Nat := query fun s => cursorOf s room

/-- `store.identity()`: a transaction that reads the existing row. -/
def identity : Service mls Unit := transaction call

def journal (id : MessageId) (request : Request) : Service mls Unit := do
  onlyIf (¬request.isAcknowledge) do
    let bytes ← encoded request
    admitNewData bytes.length
  let message ← encoded (ClientMessage.delivery id request)
  execute fun s => s.saveOutbox id "Delivery" message

def requireContact (e : Engine mls) (user : UserId) : Service mls ContactCard := do
  let found ← query fun s => s.verifiedContacts user
  let row ← require (.store .database) found
  liftStore (ContactCard.parse e.crypto (hexText row.card))

/-- `ContactCard::import`: an existing pin is kept. -/
def importCard (e : Engine mls) (card : ContactCard) (independent : List Char) :
    Service mls Unit := do
  let given ← orFail (.store (.invalidData "invalid fingerprint"))
    (Local.ofExcept ((parseFingerprintHex independent).mapError fun _ => Error.decode))
  if parseFingerprintHex (card.fingerprint e.crypto) ≠ .ok given then
    Local.fail (.store (.invalidData "independent contact fingerprint does not match"))
  else do
    let _ ← liftStore (ContactCard.parse e.crypto card.encode)
    match ← query fun s => s.verifiedContacts card.user with
    | some old =>
      if old.card ≠ card.bytes then
        Local.fail (.store (.invalidData "contact keys changed; pin preserved"))
      else pure ()
    | none => do
        admitNewData ContactCard.cardBytes
        update fun s => s.insertContact card.user ⟨card.mlsKey.toList, card.bytes⟩

def startUp (e : Engine mls) : Service mls Unit :=
  importCard e e.ownCard (e.ownCard.fingerprint e.crypto)

/-- The durable insertion of an intent for a room with a verified group. -/
def intent (room : RoomId) (target : Option UserId) (plaintext : Option Bytes) :
    Program mls Unit := do
  let present ← Prog.perform do
    admitNewData (match plaintext with | some text => text.length | none => 16)
    hasGroup room
  if ¬present then Prog.fail (.text "no verified MLS group for room")
  else do
    let id ← Prog.fresh .random
    Prog.perform (execute fun s => s.insertIntent ⟨id, room, target, plaintext, none, none⟩)

def durable (request : Request) : Program mls Unit := do
  let id ← Prog.fresh .random
  Prog.perform (journal id request)

def bindBefore : Option UInt64 → Service mls (Option Nat)
  | none => pure none
  | some sequence => do
      let bound ← bindU64 sequence.toNat
      pure (some bound)

/-- `ClientStore::history`. -/
def history (room : RoomId) (before : Option UInt64) : Service mls (List HistoryRow) := do
  call
  let bound ← bindBefore before
  let s ← Local.get
  pure (s.store.historyPage room bound)

def command (e : Engine mls) : UserCommand → Program mls Unit
  | .contactExport => Prog.perform do
      identity
      call
  | .contactImport card fingerprint => Prog.perform do
      let card ← liftStore (ContactCard.parse e.crypto card)
      importCard e card fingerprint
  | .listContacts | .listRooms => Prog.perform call
  | .fetchRoomHistory room before => Prog.perform do
      let _ ← history room before
      pure ()
  | .createRoom name => durable (.createRoom name)
  | .publishKeyPackages count => do
      let id ← Prog.fresh .random
      Prog.perform (atomic do
        let packages ← generateKeyPackages e.client count
        journal id (.publishKeyPackages packages))
  | .addToRoom room user => do
      let _ ← Prog.perform (requireContact e user)
      intent room (some user) none
  | .sendRoomMessage room body => intent room none (some body)
  | .syncWelcomes => pure ()
  | .setFetchGrant requester allowed => do
      let _ ← Prog.perform (requireContact e requester)
      durable (.setFetchGrant requester allowed)

/-- An event is stored once; another record under either of its keys is an equivocation. -/
def receive (event : Event) : Service mls Unit := do
  let sequence := event.operation.parent.toNat + 1
  if sequence > i64Max then Local.fail (.text "invalid event sequence")
  else do
    let bytes ← encoded event
    match ← query fun s => s.findInbox event.id event.operation.room sequence with
    | some existing =>
      if existing.record ≠ bytes then Local.fail (.text "relay equivocated about an event")
      else pure ()
    | none => do
        admitNewData bytes.length
        execute fun s =>
          s.insertInbox ⟨event.id, event.operation.room, sequence, bytes, .received⟩

/-- The package of a reservation goes to the one intent that made it. -/
def installReservation (id : MessageId) (recipient : UserId) (package : Bytes) :
    Service mls Unit := do
  call
  let s ← Local.get
  let (changed, store) := s.store.installPackage id recipient package
  Local.modify fun s => { s with store := store }
  if changed ≠ 1 then Local.fail (.text "reservation has no matching durable target")
  else update fun s => s.removeOutbox id

def completeReservation (id : MessageId) (recipient : UserId) (package : Bytes) :
    Service mls Unit := do
  let message ← parsed package
  let identity ← require (.text "response is not a KeyPackage") (mls.keyPackageIdentity message)
  call
  let s ← Local.get
  let actual ← liftStore (s.store.verify identity)
  if actual ≠ recipient.bytes.toList then Local.fail (.text "KeyPackage target mismatch")
  else transaction (installReservation id recipient package)

def discardAttempt : Request → Service mls Unit
  | .appendRoomOperation operation =>
    onlyIf (operation.contentType = .commit) (discardPending operation.room)
  | _ => pure ()

def completeConflict (id : MessageId) (operation : Append) : Service mls Unit := atomic do
  discardAttempt (.appendRoomOperation operation)
  update fun s => s.removeOutbox id
  update fun s => s.deleteHistory id
  update fun s => s.clearAttempt id

def completeRejection (id : MessageId) (request : Request) : Service mls Unit := atomic do
  discardAttempt request
  update fun s => s.deleteIntents id
  update fun s => s.removeOutbox id

def completeCreation (e : Engine mls) (id : MessageId) (name : String) (room : RoomId) :
    Service mls Unit := atomic do
  let _ ← createGroup e.client room
  execute fun s => s.upsertRoom room name "created"
  update fun s => s.insertCursorOrIgnore room 0
  update fun s => s.removeOutbox id

def differs : Service mls Unit := Local.fail (.text "response differs from durable operation")

/-- The answer to an outbox entry. A transient rejection keeps the entry. -/
def complete (e : Engine mls) (id : MessageId) (request : Request) (response : Response) :
    Service mls Unit :=
  match response with
  | .rejected .overloaded | .rejected .quota | .rejected .internal => pure ()
  | .rejected _ => completeRejection id request
  | .roomCreated room =>
    match request with
    | .createRoom name => completeCreation e id name room
    | _ => differs
  | .keyPackagesPublished count =>
    match request with
    | .publishKeyPackages packages =>
      if count.toNat = packages.length then update fun s => s.removeOutbox id else differs
    | _ => differs
  | .fetchGrantSet =>
    match request with
    | .setFetchGrant _ _ => update fun s => s.removeOutbox id
    | _ => differs
  | .keyPackage actual package =>
    match request with
    | .reserveKeyPackage recipient =>
      if recipient = actual then completeReservation id recipient package else differs
    | _ => differs
  | .appendAccepted event =>
    match request with
    | .appendRoomOperation operation =>
      if event = ⟨id, e.user, operation⟩ then receive event else differs
    | _ => differs
  | .headConflict room head =>
    match request with
    | .appendRoomOperation operation =>
      if room = operation.room ∧ head ≠ operation.parent then completeConflict id operation
      else differs
    | _ => differs
  | .acknowledged =>
    match request with
    | .acknowledge _ _ => update fun s => s.removeOutbox id
    | _ => differs
  | .roomEvents _ _ _ _ | .syncIndex _ _ | .welcomes _ _ _ => differs

/-- The request of an attempt; an append also leaves its plaintext in the history. -/
def attemptRequest (e : Engine mls) (row : IntentRow) (id : MessageId) (parent : Nat) :
    Service mls Request :=
  match row.target, row.package with
  | some recipient, none => pure (.reserveKeyPackage recipient)
  | target, some package => do
      let aad := eventAuthenticatedData row.room id (UInt64.ofNat parent)
      let (epoch, body, welcome) ← buildPendingAdd row.room package aad
      let recipient ← require (.text "add intent has no target") target
      let signature := e.sign (welcomeTranscript e.crypto.sha256 recipient row.room id
        (UInt64.ofNat (parent + 1)) welcome)
      pure (.appendRoomOperation ⟨row.room, UInt64.ofNat parent, epoch, .commit, body,
        some ⟨recipient, welcome, signature⟩⟩)
  | none, none => do
      let aad := eventAuthenticatedData row.room id (UInt64.ofNat parent)
      let plaintext ← require (.text "send intent has no plaintext") row.plaintext
      let (epoch, body) ← encryptBound row.room plaintext aad
      let sequence ← bindU64 (parent + 1)
      update fun s => s.recordPlaintext ⟨id, row.room, sequence, e.user, plaintext⟩
      pure (.appendRoomOperation ⟨row.room, UInt64.ofNat parent, epoch, .application, body, none⟩)

def attemptBody (e : Engine mls) (row : IntentRow) (id : MessageId) (parent : Nat) :
    Service mls Unit := atomic do
  let request ← attemptRequest e row id parent
  journal id request
  update fun s => s.setAttempt row.id id

def isBlocked (s : Store mls) (room : RoomId) (after : Nat) : Bool :=
  s.deliveryInbox.any fun row => decide (row.room = room ∧ after < row.sequence)

/-- One intent without an attempt; `false` passes it over. -/
def buildAttempt (e : Engine mls) (row : IntentRow) : Program mls Bool := do
  if ¬(← Prog.perform (hasGroup row.room)) then pure false
  else do
    let roomCursor ← Prog.perform (cursor row.room)
    if ← Prog.perform (query fun s => isBlocked s row.room roomCursor) then pure false
    else do
      let id ← Prog.fresh .random
      let parent ← Prog.perform (cursor row.room)
      Prog.perform identity
      Prog.perform (attemptBody e row id parent)
      pure true

def buildRows (e : Engine mls) : List IntentRow → Bool → Program mls Bool
  | [], built => pure built
  | row :: rows, built => do
      let one ← buildAttempt e row
      buildRows e rows (built || one)

def buildAttempts (e : Engine mls) : Program mls Bool := do
  let rows ← Prog.perform (query fun s =>
    s.deliveryIntents.filter fun row => decide (row.attempt = none))
  buildRows e rows false

/-- The settled state, the moved cursor and the receipt of an event. -/
def finishEvent (e : Engine mls) (event : Event) (state : ProcessingState) : Service mls Unit := do
  update fun s => s.setInboxState event.id state
  let sequence ← bindU64 (event.operation.parent.toNat + 1)
  update fun s => s.setCursor event.operation.room sequence
  journal (acknowledgementId e.crypto.sha256 e.user [event.id] []) (.acknowledge [event.id] [])

/-- An event of one's own takes effect through its durable attempt. -/
def applyOwn (event : Event) (own : Option OutboxRow) : Service mls Unit := do
  let entry ← require (.text "own event has no exact durable attempt") own
  match ← decoded ClientMessage entry.message with
  | .delivery requestId (.appendRoomOperation operation) =>
    if requestId ≠ event.id ∨ operation ≠ event.operation then
      Local.fail (.text "own event differs from exact attempt")
    else do
      onlyIf (operation.contentType = .commit) (applyAcceptedCommit event.operation.room)
      update fun s => s.removeOutbox event.id
      update fun s => s.deleteIntents event.id
      let sequence ← bindU64 (event.operation.parent.toNat + 1)
      update fun s => s.setHistorySequence event.id sequence
  | _ => Local.fail (.text "invalid own attempt")

def applyPeer (event : Event) : Service mls Unit := do
  match ← processBound event with
  | .application plaintext author => do
      if length : author.length = 16 then do
        let sequence ← bindU64 (event.operation.parent.toNat + 1)
        update fun s => s.recordPlaintext
          ⟨event.id, event.operation.room, sequence, ⟨⟨author, length⟩⟩, plaintext⟩
      else Local.fail (.text "invalid stored user")
  | .commit _ => pure ()

def effect (e : Engine mls) (event : Event) (own : Option OutboxRow) : Service mls Unit :=
  if event.sender = e.user then applyOwn event own else applyPeer event

def settleEvent (e : Engine mls) (event : Event) (own : Option OutboxRow) : Service mls Unit :=
  atomic do
    effect e event own
    finishEvent e event .applied

/-- Whether the event at the cursor is settled; `false` leaves it blocked. -/
def applyEvent (e : Engine mls) (event : Event) : Service mls Bool := do
  let current ← cursor event.operation.room
  if current ≠ event.operation.parent.toNat then
    Local.fail (.text "attempted noncontiguous MLS processing")
  else do
    let own ← query fun s => s.findOutbox event.id
    match ← (settleEvent e event own).attempt with
    | .ok _ => do
        onlyIf (event.sender = e.user ∧ event.operation.contentType = .application) call
        pure true
    | .error (.processing .blocked) => do
        update fun s => s.setInboxState event.id .blocked
        pure false
    | .error (.processing .rejected) => do
        transaction (finishEvent e event .rejected)
        pure true
    | .error other => Local.fail other

def verifyWelcome (e : Engine mls) (welcome : WelcomeDelivery) : Service mls Unit := do
  if welcome.sequence = 0 ∨ welcome.sequence.toNat > i64Max then
    Local.fail (.text "invalid Welcome boundary")
  else do
    let card ← requireContact e welcome.inviter
    if e.crypto.verifyStrict card.transportKey (welcomeTranscript e.crypto.sha256 e.user
        welcome.room welcome.event welcome.sequence welcome.attachment.body)
        welcome.attachment.signature then pure ()
    else Local.fail (.text "invalid Welcome signature")

def joinWelcome (e : Engine mls) (cursor : Nat) (welcome : WelcomeDelivery) : Service mls Unit :=
  atomic do
    if ← hasGroup welcome.room then
      Local.fail (.text "room already exists; refusing another Welcome boundary")
    else do
      let _ ← join e.client welcome.room welcome.attachment.body
      if ¬(← containsUser welcome.room welcome.inviter) then
        Local.fail (.text "Welcome signer is not a group member")
      else do
        execute fun s => s.insertCursor welcome.room welcome.sequence.toNat
        execute fun s => s.upsertRoom welcome.room welcome.roomName "welcomed"
        update fun s => s.setWelcomeState cursor .applied
        journal (acknowledgementId e.crypto.sha256 e.user [] [UInt64.ofNat cursor])
          (.acknowledge [] [UInt64.ofNat cursor])

/-- The next unsettled Welcome, joined or blocked; `none` when there is no more. -/
def processWelcome (e : Engine mls) (after : Nat) : Service mls (Option Nat) := do
  match ← query fun s => s.nextWelcome after with
  | none => pure none
  | some row => do
      let welcome ← decoded WelcomeDelivery row.record
      match ← (verifyWelcome e welcome).attempt with
      | .error _ => do
          update fun s => s.setWelcomeState row.cursor .blocked
          pure (some row.cursor)
      | .ok _ => do
          match ← (joinWelcome e row.cursor welcome).attempt with
          | .error _ => do
              update fun s => s.setWelcomeState row.cursor .blocked
              pure (some row.cursor)
          | .ok _ => pure (some row.cursor)

def processWelcomes (e : Engine mls) : Nat → Nat → Program mls Unit
  | 0, _ => Prog.fail .exhausted
  | fuel + 1, after => do
      match ← Prog.perform (processWelcome e after) with
      | none => pure ()
      | some cursor => processWelcomes e fuel cursor

/-- `Wire::request`. -/
def wireRequest (id : MessageId) (request : Request) : Program mls Response :=
  match encodeMessage (ClientMessage.delivery id request) with
  | .error _ => Prog.fail .encode
  | .ok _ => Prog.request (id, request) .disconnected

def readAgain (id : MessageId) (request : Request) : Nat → Program mls Response
  | 0 => Prog.fail .exhausted
  | fuel + 1 => do
      match ← wireRequest id request with
      | .rejected .overloaded | .rejected .internal => readAgain id request fuel
      | response => pure response

/-- `Wire::read`. -/
def read (fuel : Nat) (request : Request) : Program mls Response := do
  let id ← Prog.fresh .random
  readAgain id request fuel

def insertWelcomes (e : Engine mls) : List WelcomeDelivery → Nat → Service mls Nat
  | [], last => pure last
  | welcome :: welcomes, last => do
      if welcome.cursor.toNat ≤ last ∨ welcome.attachment.recipient ≠ e.user then
        Local.fail (.text "Welcome cursor or target mismatch")
      else do
        let record ← encoded welcome
        let cursor ← bindU64 welcome.cursor.toNat
        execute fun s => s.insertWelcome ⟨cursor, record, .received⟩
        insertWelcomes e welcomes cursor

def saveWelcomes (e : Engine mls) (cursor : Nat) (welcomes : List WelcomeDelivery) :
    Service mls Unit := do
  admitNewData (welcomes.map fun w => w.attachment.body.length + 1024).sum
  transaction do
    let last ← insertWelcomes e welcomes cursor
    update fun s => { s with welcomeCursor := last }

def fetchWelcomes (e : Engine mls) : Nat → Program mls Unit
  | 0 => Prog.fail .exhausted
  | fuel + 1 => do
      let cursor ← Prog.perform (query fun s => s.welcomeCursor)
      match ← read (fuel + 1) (.fetchWelcomes (UInt64.ofNat cursor)) with
      | .welcomes after welcomes more =>
        if after.toNat ≠ cursor ∨ (more ∧ welcomes.isEmpty) then
          Prog.fail (.text "invalid Welcome page cursor")
        else if welcomes.isEmpty then pure ()
        else do
          Prog.perform (saveWelcomes e cursor welcomes)
          if more then fetchWelcomes e fuel else pure ()
      | _ => Prog.fail (.text "invalid Welcome recovery response")

def receivePage (room : RoomId) : Nat → List Event → Program mls Unit
  | _, [] => pure ()
  | expected, event :: events => do
      if event.operation.room ≠ room ∨ event.operation.parent.toNat ≠ expected then
        Prog.fail (.text "noncontiguous room event page")
      else do
        Prog.perform (receive event)
        receivePage room (expected + 1) events

def applyPage (e : Engine mls) : List Event → Program mls Bool
  | [] => pure true
  | event :: events => do
      if ← Prog.perform (applyEvent e event) then applyPage e events else pure false

def syncRoom (e : Engine mls) (room : RoomId) (head : Nat) : Nat → Program mls Unit
  | 0 => Prog.fail .exhausted
  | fuel + 1 => do
      if ¬(← Prog.perform (cursor room)) < head then pure ()
      else do
        let current ← Prog.perform (cursor room)
        match ← read (fuel + 1) (.fetchRoomEvents room (UInt64.ofNat current)) with
        | .roomEvents answered after events _ =>
          if answered ≠ room ∨ after.toNat ≠ current ∨ events.isEmpty then
            Prog.fail (.text "room history omitted a required sequence")
          else do
            receivePage room current events
            if ← applyPage e events then syncRoom e room head fuel else pure ()
        | _ => Prog.fail (.text "invalid room recovery response")

/-- The heads of an index page, in strictly increasing order of their rooms. -/
def syncHeads (e : Engine mls) (fuel : Nat) :
    Option RoomId → List RoomHead → Program mls (Option RoomId)
  | after, [] => pure after
  | after, head :: heads => do
      if after.any fun r => decide (head.room ≤ r) then
        Prog.fail (.text "room index is not ordered")
      else do
        let current ← Prog.perform (cursor head.room)
        if head.sequence.toNat > i64Max ∨ head.sequence.toNat < current then
          Prog.fail (.text "invalid or regressing room head")
        else do
          Prog.perform (execute fun s => s.upsertRoom head.room head.name "subscribed")
          if ← Prog.perform (unresolved head.room) then syncHeads e fuel (some head.room) heads
          else if ¬(← Prog.perform (hasGroup head.room)) then
            syncHeads e fuel (some head.room) heads
          else do
            syncRoom e head.room head.sequence.toNat fuel
            syncHeads e fuel (some head.room) heads

def syncIndex (e : Engine mls) : Nat → Option RoomId → Program mls Unit
  | 0, _ => Prog.fail .exhausted
  | fuel + 1, after => do
      match ← read (fuel + 1) (.syncIndex after) with
      | .syncIndex rooms more =>
        if more ∧ rooms.isEmpty then Prog.fail (.text "empty continuing room index")
        else do
          let last ← syncHeads e (fuel + 1) after rooms
          if more then syncIndex e fuel last else pure ()
      | _ => Prog.fail (.text "invalid room index response")

def synchronize (e : Engine mls) (fuel : Nat) : Program mls Unit := do
  fetchWelcomes e fuel
  processWelcomes e fuel 0
  syncIndex e fuel none

/-- The entries of one outbox page, each sent and completed in turn. -/
def sendEntries (e : Engine mls) : Nat → List OutboxRow → Program mls Nat
  | after, [] => pure after
  | _, entry :: entries =>
    match decodeMessage ClientMessage entry.message with
    | .error _ => Prog.fail .decode
    | .ok (.delivery requestId request) =>
      if requestId ≠ entry.requestId then Prog.fail (.text "outbox ID mismatch")
      else do
        let response ← wireRequest requestId request
        Prog.perform (complete e requestId request response)
        sendEntries e entry.rowid entries
    | .ok _ => Prog.fail (.text "unsupported old outbox protocol")

def sendOutbox (e : Engine mls) : Nat → Nat → Program mls Unit
  | 0, _ => Prog.fail .exhausted
  | fuel + 1, after => do
      let page ← Prog.perform (query fun s => s.outboxPage after)
      if page.isEmpty then pure ()
      else do
        let last ← sendEntries e after page
        sendOutbox e fuel last

def driveRounds (e : Engine mls) (fuel : Nat) : Nat → Program mls Unit
  | 0 => pure ()
  | rounds + 1 => do
      sendOutbox e fuel 0
      synchronize e fuel
      if ← buildAttempts e then driveRounds e fuel rounds else pure ()

/-- `drive_inner`; `fuel` bounds each of its loops. -/
def driveInner (e : Engine mls) (fuel : Nat) : Program mls Unit := driveRounds e fuel 4

end Grotto.Client.Delivery
