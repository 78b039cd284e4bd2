/- GID: Grotto/Client/Changes
   digest: Everything one action of the engine may do to the client's tables. -/

import Grotto.Client.Operations

set_option autoImplicit false

namespace Grotto.Client.Changes

open Format.Varint (Bytes)
open Protocol.Records Protocol.Wire Protocol.Transcripts Protocol.Hex
open Contacts Library Tables
open Groups Effects Delivery

variable {mls : Mls}

def Entry (s : Store mls) (id : MessageId) (request : Request) : Prop :=
  ∃ row ∈ s.outbox, row.requestId = id ∧
    decodeMessage ClientMessage row.message = .ok (.delivery id request)

/-- The request is in the outbox under `id` afterwards. -/
def Journals (s : Store mls) (id : MessageId) (request : Request) (t : Store mls) : Prop :=
  ∃ message, encodeMessage (ClientMessage.delivery id request) = .ok message ∧
    s.saveOutbox id "Delivery" message = .ok t

def rowOf (event : Event) (bytes : Bytes) (state : ProcessingState) : InboxRow :=
  ⟨event.id, event.operation.room, event.operation.parent.toNat + 1, bytes, state⟩

def Recorded (s : Store mls) : Prop :=
  ∀ row ∈ s.deliveryInbox, ∃ event : Event, event.operation.parent.toNat + 1 ≤ i64Max ∧
    encodeMessage event = .ok row.record ∧ row = rowOf event row.record row.state

def Holds (s : Store mls) (event : Event) : Prop :=
  ∃ bytes state, encodeMessage event = .ok bytes ∧ rowOf event bytes state ∈ s.deliveryInbox

def Stores (s : Store mls) (event : Event) (t : Store mls) : Prop :=
  ∃ bytes, event.operation.parent.toNat + 1 ≤ i64Max ∧ encodeMessage event = .ok bytes ∧
    s.insertInbox (rowOf event bytes .received) = .ok t

inductive Closes : Request → Response → Prop
  | published {packages : List Bytes} {count : UInt64} (all : count.toNat = packages.length) :
      Closes (.publishKeyPackages packages) (.keyPackagesPublished count)
  | granted {requester : UserId} {allowed : Bool} :
      Closes (.setFetchGrant requester allowed) .fetchGrantSet
  | acknowledged {events : List MessageId} {welcomes : List UInt64} :
      Closes (.acknowledge events welcomes) .acknowledged

def isPassing : Rejection → Bool
  | .overloaded | .quota | .internal => true
  | _ => false

def Forgets (s : Store mls) (request : Request) (t : Store mls) : Prop :=
  match request with
  | .appendRoomOperation operation =>
    if operation.contentType = .commit then Discards s operation.room t else t = s
  | _ => t = s

section Steps

variable (e : Engine mls)

inductive Builds (s : Store mls) (row : IntentRow) (id : MessageId) (parent : Nat) :
    Request → Store mls → Prop
  | reservation {recipient : UserId} (target : row.target = some recipient)
      (package : row.package = none) : Builds s row id parent (.reserveKeyPackage recipient) s
  | addition {recipient : UserId} {package body welcome : Bytes} {epoch : UInt64} {next : Store mls}
      (target : row.target = some recipient) (package' : row.package = some package)
      (adds : Adds s row.room package (eventAuthenticatedData row.room id (UInt64.ofNat parent))
        epoch body welcome next) :
      Builds s row id parent (.appendRoomOperation ⟨row.room, UInt64.ofNat parent, epoch, .commit,
        body, some ⟨recipient, welcome, e.sign (welcomeTranscript e.crypto.sha256 recipient row.room
          id (UInt64.ofNat (parent + 1)) welcome)⟩⟩) next
  | message {plaintext body : Bytes} {epoch : UInt64} {next : Store mls}
      (target : row.target = none) (package : row.package = none)
      (text : row.plaintext = some plaintext) (bound : parent + 1 ≤ i64Max)
      (encrypts : Encrypts s row.room plaintext
        (eventAuthenticatedData row.room id (UInt64.ofNat parent)) epoch body next) :
      Builds s row id parent
        (.appendRoomOperation ⟨row.room, UInt64.ofNat parent, epoch, .application, body, none⟩)
        (next.recordPlaintext ⟨id, row.room, parent + 1, e.user, plaintext⟩)

inductive Applies (s : Store mls) (event : Event) : Store mls → Prop
  | own {next : Store mls} (mine : event.sender = e.user)
      (attempt : Entry s event.id (.appendRoomOperation event.operation))
      (merges : if event.operation.contentType = .commit
        then Merges s event.operation.room next else next = s) :
      Applies s event (((next.removeOutbox event.id).deleteIntents event.id).setHistorySequence
        event.id (event.operation.parent.toNat + 1))
  | message {plaintext : Bytes} {next : Store mls} (other : event.sender ≠ e.user)
      (processes : Processes s event (.application plaintext event.sender.bytes.toList) next) :
      Applies s event (next.recordPlaintext ⟨event.id, event.operation.room,
        event.operation.parent.toNat + 1, event.sender, plaintext⟩)
  | commit {epoch : UInt64} {next : Store mls} (other : event.sender ≠ e.user)
      (processes : Processes s event (.commit epoch) next) : Applies s event next

def Finishes (s : Store mls) (event : Event) (state : ProcessingState) (t : Store mls) : Prop :=
  event.operation.parent.toNat + 1 ≤ i64Max ∧
    Journals ((s.setInboxState event.id state).setCursor event.operation.room
      (event.operation.parent.toNat + 1)) (acknowledgementId e.crypto.sha256 e.user [event.id] [])
      (.acknowledge [event.id] []) t

/-- The next event of a room with a group and without an attempt whose answer is open. -/
structure AtCursor (s : Store mls) (event : Event) : Prop where
  held : Holds s event
  next : cursorOf s event.operation.room = event.operation.parent.toNat
  group : (s.mlsGroups event.operation.room).isSome
  resolved : isUnresolved s event.operation.room = false

inductive WelcomeRows : Nat → List WelcomeDelivery → List WelcomeInboxRow → Nat → Prop
  | nil {last : Nat} : WelcomeRows last [] [] last
  | cons {last final : Nat} {welcome : WelcomeDelivery} {record : Bytes}
      {welcomes : List WelcomeDelivery} {rows : List WelcomeInboxRow}
      (above : last < welcome.cursor.toNat) (mine : welcome.attachment.recipient = e.user)
      (encoded : encodeMessage welcome = .ok record) (bound : welcome.cursor.toNat ≤ i64Max)
      (rest : WelcomeRows welcome.cursor.toNat welcomes rows final) :
      WelcomeRows last (welcome :: welcomes) (⟨welcome.cursor.toNat, record, .received⟩ :: rows) final

structure Verified (s : Store mls) (welcome : WelcomeDelivery) : Prop where
  positive : welcome.sequence ≠ 0
  bound : welcome.sequence.toNat ≤ i64Max
  signed : ∃ row card, s.verifiedContacts welcome.inviter = some row ∧
    ContactCard.parse e.crypto (hexText row.card) = .ok card ∧
    e.crypto.verifyStrict card.transportKey (welcomeTranscript e.crypto.sha256 e.user welcome.room
      welcome.event welcome.sequence welcome.attachment.body) welcome.attachment.signature = true

inductive Completes (s : Store mls) (id : MessageId) : Request → Response → Store mls → Prop
  | create {name : String} {room : RoomId} {unread : Prop} {u v : Store mls}
      (founds : Founds e.client unread s room u) (named : u.upsertRoom room name "created" = .ok v) :
      Completes s id (.createRoom name) (.roomCreated room)
        ((v.insertCursorOrIgnore room 0).removeOutbox id)
  | close {request : Request} {response : Response} (closes : Closes request response) :
      Completes s id request response (s.removeOutbox id)
  | reserve {recipient : UserId} {package : Bytes} {message : mls.Message}
      {identity : SigningIdentity} (read : fromWire mls package = some message)
      (leaf : mls.keyPackageIdentity message = some identity)
      (pinned : s.verify identity = .ok recipient.bytes.toList)
      (one : (s.installPackage id recipient package).1 = 1) :
      Completes s id (.reserveKeyPackage recipient) (.keyPackage recipient package)
        ((s.installPackage id recipient package).2.removeOutbox id)
  | accept {operation : Append} {t : Store mls} (stores : Stores s ⟨id, e.user, operation⟩ t) :
      Completes s id (.appendRoomOperation operation) (.appendAccepted ⟨id, e.user, operation⟩) t
  | conflict {operation : Append} {head : UInt64} {u : Store mls} (moved : head ≠ operation.parent)
      (forgets : Forgets s (.appendRoomOperation operation) u) :
      Completes s id (.appendRoomOperation operation) (.headConflict operation.room head)
        (((u.removeOutbox id).deleteHistory id).clearAttempt id)
  | refuse {request : Request} {reason : Rejection} {u : Store mls}
      (lasting : isPassing reason = false) (forgets : Forgets s request u) :
      Completes s id request (.rejected reason) ((u.deleteIntents id).removeOutbox id)

inductive Settles (s : Store mls) (event : Event) : Store mls → Prop
  | apply {u t : Store mls} (applies : Applies e s event u)
      (finishes : Finishes e u event .applied t) : Settles s event t
  | block (other : event.sender ≠ e.user) : Settles s event (s.setInboxState event.id .blocked)
  | reject {t : Store mls} (other : event.sender ≠ e.user) (refuses : Refuses s event)
      (finishes : Finishes e s event .rejected t) : Settles s event t

structure JoinsWelcome (s : Store mls) (row : WelcomeInboxRow) (welcome : WelcomeDelivery)
    (group : mls.Group) (t : Store mls) : Prop where
  read : decodeMessage WelcomeDelivery row.record = .ok welcome
  verified : Verified e s welcome
  joins : ∃ unread u v w, Joins e.client unread s welcome.room welcome.attachment.body u ∧
    u.mlsGroups welcome.room = some group ∧
    u.insertCursor welcome.room welcome.sequence.toNat = .ok v ∧
    v.upsertRoom welcome.room welcome.roomName "welcomed" = .ok w ∧
    Journals (w.setWelcomeState row.cursor .applied)
      (acknowledgementId e.crypto.sha256 e.user [] [UInt64.ofNat row.cursor])
      (.acknowledge [] [UInt64.ofNat row.cursor]) t
  inviter : ∃ member ∈ members group, member.identifier = some welcome.inviter.bytes.toList

/-- Why a card is pinned: the user gave its fingerprint, or it is the user's own. -/
inductive Vouched (asked : UserCommand → Prop) (card : ContactCard) : Prop
  | given {text fingerprint : List Char} (order : asked (.contactImport text fingerprint))
      (parsed : ContactCard.parse e.crypto text = .ok card)
      (matching : parseFingerprintHex (card.fingerprint e.crypto) = parseFingerprintHex fingerprint)
      (valid : ∃ read, ContactCard.parse e.crypto card.encode = .ok read)
  | own (mine : card = e.ownCard) (valid : ∃ read, ContactCard.parse e.crypto card.encode = .ok read)

inductive Orders : UserCommand → Request → Prop
  | createRoom (name : String) : Orders (.createRoom name) (.createRoom name)
  | publish (count : Nat) (packages : List Bytes) :
      Orders (.publishKeyPackages count) (.publishKeyPackages packages)
  | grant (requester : UserId) (allowed : Bool) :
      Orders (.setFetchGrant requester allowed) (.setFetchGrant requester allowed)

variable (asked : UserCommand → Prop) (known : MessageId × Request → Response → Prop)
variable (fresh : MessageId → Prop)

/-- One durable change, with what the engine had checked and been answered before it. -/
inductive Commits (s : Store mls) : Store mls → Prop
  | contact {card : ContactCard} (vouched : Vouched e asked card)
      (new : s.verifiedContacts card.user = none) :
      Commits s (s.insertContact card.user ⟨card.mlsKey.toList, card.bytes⟩)
  | command {order : UserCommand} {id : MessageId} {request : Request} {packages : mls.Packages}
      {t : Store mls} (issued : asked order) (orders : Orders order request) (new : fresh id)
      (journals : Journals { s with mlsPackages := packages } id request t) : Commits s t
  | intent {id : MessageId} {room : RoomId} {target : Option UserId} {plaintext : Option Bytes}
      {t : Store mls} (new : fresh id) (group : (s.mlsGroups room).isSome)
      (inserted : s.insertIntent ⟨id, room, target, plaintext, none, none⟩ = .ok t) : Commits s t
  | name {room : RoomId} {name : String} {t : Store mls}
      (named : s.upsertRoom room name "subscribed" = .ok t) : Commits s t
  | complete {id : MessageId} {request : Request} {response : Response} {t : Store mls}
      (entry : Entry s id request) (answer : known (id, request) response)
      (completes : Completes e s id request response t) : Commits s t
  | receive {query : MessageId} {room : RoomId} {after : UInt64} {events : List Event} {more : Bool}
      {event : Event} {t : Store mls} (group : (s.mlsGroups room).isSome)
      (answer : known (query, .fetchRoomEvents room after) (.roomEvents room after events more))
      (listed : event ∈ events) (place : event.operation.room = room)
      (above : cursorOf s room ≤ event.operation.parent.toNat)
      (next : event.operation.parent.toNat = cursorOf s room ∨
        ∃ row ∈ s.deliveryInbox, row.room = room ∧ row.sequence = event.operation.parent.toNat)
      (stores : Stores s event t) : Commits s t
  | attempt {row : IntentRow} {id : MessageId} {request : Request} {u v : Store mls}
      (planned : row ∈ s.deliveryIntents) (idle : row.attempt = none) (new : fresh id)
      (group : (s.mlsGroups row.room).isSome)
      (clear : isBlocked s row.room (cursorOf s row.room) = false)
      (builds : Builds e s row id (cursorOf s row.room) request u) (journals : Journals u id request v) :
      Commits s (v.setAttempt row.id id)
  | welcomes {query : MessageId} {after : UInt64} {page : List WelcomeDelivery} {more : Bool}
      {rows : List WelcomeInboxRow} {last : Nat} (start : after.toNat = s.welcomeCursor)
      (answer : known (query, .fetchWelcomes after) (.welcomes after page more))
      (listed : WelcomeRows e s.welcomeCursor page rows last) :
      Commits s { s with welcomeInbox := s.welcomeInbox ++ rows, welcomeCursor := last }
  | suspend {row : WelcomeInboxRow} (pending : row ∈ s.welcomeInbox)
      (unsettled : row.state.isSettled = false) :
      Commits s (s.setWelcomeState row.cursor .blocked)
  | join {row : WelcomeInboxRow} {welcome : WelcomeDelivery} {group : mls.Group} {t : Store mls}
      (pending : row ∈ s.welcomeInbox) (unsettled : row.state.isSettled = false)
      (joins : JoinsWelcome e s row welcome group t) : Commits s t
  | settle {event : Event} {t : Store mls} (ready : AtCursor s event)
      (settles : Settles e s event t) : Commits s t

end Steps

end Grotto.Client.Changes
