/- GID: Grotto/Client/Tables
   digest: The client database, its statements and its transaction guard. -/

import Grotto.Base.Paging
import Grotto.Base.Program
import Grotto.Client.Contacts
import Grotto.Client.Library
import Mathlib.Logic.Function.Basic

set_option autoImplicit false

namespace Grotto.Client.Tables

open Format.Varint (Bytes)
open Protocol.Records
open Base.Paging Contacts Library

inductive ProcessingState
  | received | blocked | applied | rejected
  deriving DecidableEq

def ProcessingState.isSettled : ProcessingState → Bool
  | .applied | .rejected => true
  | .received | .blocked => false

structure InboxRow where
  eventId : MessageId
  room : RoomId
  sequence : Nat
  record : Bytes
  state : ProcessingState
  deriving DecidableEq

structure WelcomeInboxRow where
  cursor : Nat
  record : Bytes
  state : ProcessingState
  deriving DecidableEq

structure IntentRow where
  id : MessageId
  room : RoomId
  target : Option UserId
  plaintext : Option Bytes
  package : Option Bytes
  attempt : Option MessageId
  deriving DecidableEq

structure ContactRow where
  mlsKey : Bytes
  card : Bytes
  deriving DecidableEq

structure HistoryRow where
  messageId : MessageId
  room : RoomId
  sequence : Nat
  author : UserId
  plaintext : Bytes
  deriving DecidableEq

structure OutboxRow where
  rowid : Nat
  requestId : MessageId
  kind : String
  message : Bytes
  deriving DecidableEq

structure RoomRow where
  name : String
  origin : String
  deriving DecidableEq

/-- The tables of the client database. Tables with one row for a key are finite maps. -/
structure Store (mls : Mls) where
  deliveryCursors : RoomId → Option Nat
  deliveryInbox : List InboxRow
  welcomeInbox : List WelcomeInboxRow
  welcomeCursor : Nat
  deliveryIntents : List IntentRow
  verifiedContacts : UserId → Option ContactRow
  mlsGroups : RoomId → Option mls.Group
  mlsPackages : mls.Packages
  authenticatedHistory : List HistoryRow
  outbox : List OutboxRow
  rooms : RoomId → Option RoomRow

/-- A database that `initialize` has just made. -/
def Store.empty (mls : Mls) : Store mls where
  deliveryCursors := fun _ => none
  deliveryInbox := []
  welcomeInbox := []
  welcomeCursor := 0
  deliveryIntents := []
  verifiedContacts := fun _ => none
  mlsGroups := fun _ => none
  mlsPackages := mls.noPackages
  authenticatedHistory := []
  outbox := []
  rooms := fun _ => none

namespace Store

variable {mls : Mls}

/-- `INSERT INTO delivery_cursors`. -/
def insertCursor (s : Store mls) (room : RoomId) (sequence : Nat) : Except StoreError (Store mls) :=
  if (s.deliveryCursors room).isSome then .error .database
  else .ok { s with deliveryCursors := Function.update s.deliveryCursors room (some sequence) }

/-- `INSERT OR IGNORE INTO delivery_cursors`. -/
def insertCursorOrIgnore (s : Store mls) (room : RoomId) (sequence : Nat) : Store mls :=
  if (s.deliveryCursors room).isSome then s
  else { s with deliveryCursors := Function.update s.deliveryCursors room (some sequence) }

/-- `INSERT .. ON CONFLICT(room) DO UPDATE SET sequence`. -/
def setCursor (s : Store mls) (room : RoomId) (sequence : Nat) : Store mls :=
  { s with deliveryCursors := Function.update s.deliveryCursors room (some sequence) }

/-- The record `receive` compares with: the first row of either key. -/
def findInbox (s : Store mls) (id : MessageId) (room : RoomId) (sequence : Nat) : Option InboxRow :=
  s.deliveryInbox.find? fun row =>
    decide (row.eventId = id ∨ (row.room = room ∧ row.sequence = sequence))

def insertInbox (s : Store mls) (row : InboxRow) : Except StoreError (Store mls) :=
  if (s.findInbox row.eventId row.room row.sequence).isSome then .error .database
  else .ok { s with deliveryInbox := s.deliveryInbox ++ [row] }

def setInboxState (s : Store mls) (id : MessageId) (state : ProcessingState) : Store mls :=
  { s with deliveryInbox := s.deliveryInbox.map fun row =>
      if row.eventId = id then { row with state := state } else row }

def insertWelcome (s : Store mls) (row : WelcomeInboxRow) : Except StoreError (Store mls) :=
  if s.welcomeInbox.any fun r => decide (r.cursor = row.cursor) then .error .database
  else .ok { s with welcomeInbox := s.welcomeInbox ++ [row] }

def setWelcomeState (s : Store mls) (cursor : Nat) (state : ProcessingState) : Store mls :=
  { s with welcomeInbox := s.welcomeInbox.map fun row =>
      if row.cursor = cursor then { row with state := state } else row }

/-- The unsettled Welcome with the least cursor above `after`. -/
def nextWelcome (s : Store mls) (after : Nat) : Option WelcomeInboxRow :=
  (s.welcomeInbox.filter fun row => decide (after < row.cursor) && !row.state.isSettled).foldl
    (fun best row =>
      match best with
      | none => some row
      | some b => if row.cursor < b.cursor then some row else some b) none

/-- The keys of `delivery_intents`: the id, and one intent for a room. -/
def insertIntent (s : Store mls) (row : IntentRow) : Except StoreError (Store mls) :=
  if s.deliveryIntents.any fun r => decide (r.id = row.id ∨ r.room = row.room) then .error .database
  else .ok { s with deliveryIntents := s.deliveryIntents ++ [row] }

def setAttempt (s : Store mls) (intent attempt : MessageId) : Store mls :=
  { s with deliveryIntents := s.deliveryIntents.map fun row =>
      if row.id = intent then { row with attempt := some attempt } else row }

def clearAttempt (s : Store mls) (attempt : MessageId) : Store mls :=
  { s with deliveryIntents := s.deliveryIntents.map fun row =>
      if row.attempt = some attempt then { row with attempt := none } else row }

def reservedBy (attempt : MessageId) (target : UserId) (row : IntentRow) : Bool :=
  decide (row.attempt = some attempt ∧ row.target = some target)

/-- The rows a reserved package is written to, and the table after it. -/
def installPackage (s : Store mls) (attempt : MessageId) (target : UserId) (package : Bytes) :
    Nat × Store mls :=
  (s.deliveryIntents.countP (reservedBy attempt target),
    { s with deliveryIntents := s.deliveryIntents.map fun row =>
        if reservedBy attempt target row then { row with package := some package, attempt := none }
        else row })

def deleteIntents (s : Store mls) (attempt : MessageId) : Store mls :=
  { s with deliveryIntents := s.deliveryIntents.filter fun row =>
      decide (row.attempt ≠ some attempt) }

/-- `ON CONFLICT(user_id) DO NOTHING`. -/
def insertContact (s : Store mls) (user : UserId) (row : ContactRow) : Store mls :=
  if (s.verifiedContacts user).isSome then s
  else { s with verifiedContacts := Function.update s.verifiedContacts user (some row) }

def writeGroup (s : Store mls) (room : RoomId) (group : mls.Group) : Store mls :=
  { s with
    mlsGroups := Function.update s.mlsGroups room (some group)
    mlsPackages := mls.release group s.mlsPackages }

@[simp] theorem writeGroup_self (s : Store mls) (room : RoomId) (group : mls.Group) :
    (s.writeGroup room group).mlsGroups room = some group := by
  simp [writeGroup]

@[simp] theorem writeGroup_of_ne (s : Store mls) {room other : RoomId} (apart : other ≠ room)
    (group : mls.Group) : (s.writeGroup room group).mlsGroups other = s.mlsGroups other := by
  simp [writeGroup, apart]

/-- `ON CONFLICT(message_id) DO UPDATE SET sequence`. -/
def recordPlaintext (s : Store mls) (row : HistoryRow) : Store mls :=
  if s.authenticatedHistory.any fun r => decide (r.messageId = row.messageId) then
    { s with authenticatedHistory := s.authenticatedHistory.map fun r =>
        if r.messageId = row.messageId then { r with sequence := row.sequence } else r }
  else { s with authenticatedHistory := s.authenticatedHistory ++ [row] }

def setHistorySequence (s : Store mls) (id : MessageId) (sequence : Nat) : Store mls :=
  { s with authenticatedHistory := s.authenticatedHistory.map fun r =>
      if r.messageId = id then { r with sequence := sequence } else r }

def deleteHistory (s : Store mls) (id : MessageId) : Store mls :=
  { s with authenticatedHistory := s.authenticatedHistory.filter fun r =>
      decide (r.messageId ≠ id) }

/-- The page of `history`: `ORDER BY sequence DESC, rowid DESC LIMIT 100`, then reversed. Rows are kept
in the order of their row identifiers. -/
def historyPage (s : Store mls) (room : RoomId) (before : Option Nat) : List HistoryRow :=
  descending HistoryRow.sequence 100 (s.authenticatedHistory.filter fun row =>
    decide (row.room = room) && before.all fun bound => decide (row.sequence < bound))

def findOutbox (s : Store mls) (id : MessageId) : Option OutboxRow :=
  s.outbox.find? fun row => decide (row.requestId = id)

/-- A new row takes the identifier after the greatest in the table. -/
def nextRowid (s : Store mls) : Nat := (s.outbox.map OutboxRow.rowid).foldl max 0 + 1

def saveOutbox (s : Store mls) (id : MessageId) (kind : String) (message : Bytes) :
    Except StoreError (Store mls) :=
  match s.findOutbox id with
  | some row =>
    if row.kind ≠ kind ∨ row.message ≠ message then
      .error (.invalidData "attempt ID reused with different payload")
    else .ok s
  | none => .ok { s with outbox := s.outbox ++ [⟨s.nextRowid, id, kind, message⟩] }

def removeOutbox (s : Store mls) (id : MessageId) : Store mls :=
  { s with outbox := s.outbox.filter fun row => decide (row.requestId ≠ id) }

/-- Entries of a page: the first always, then while the messages stay within 768 KiB. -/
def takeEntries : Nat → Bool → List OutboxRow → List OutboxRow
  | _, _, [] => []
  | bytes, started, row :: rows =>
    if started ∧ bytes + row.message.length > 768 * 1024 then []
    else row :: takeEntries (bytes + row.message.length) true rows

/-- `outbox_page`: rows are kept in the order of their row identifiers. -/
def outboxPage (s : Store mls) (after : Nat) : List OutboxRow :=
  takeEntries 0 false ((s.outbox.filter fun row => decide (after < row.rowid)).take 100)

def upsertRoom (s : Store mls) (room : RoomId) (name origin : String) :
    Except StoreError (Store mls) :=
  match normalizeRoomName name with
  | .error _ => .error (.invalidData "invalid room name")
  | .ok name =>
    let row := match s.rooms room with
      | some old => { old with name := name }
      | none => ⟨name, origin⟩
    .ok { s with rooms := Function.update s.rooms room (some row) }

/-- `VerifiedIdentityProvider::verify`: the credential names a pinned user with this key. -/
def verify (s : Store mls) (identity : SigningIdentity) : Except StoreError Bytes :=
  match identity.identifier with
  | none => .error (.invalidData "non-basic credential")
  | some bytes =>
    if length : bytes.length = 16 then
      match s.verifiedContacts ⟨⟨bytes, length⟩⟩ with
      | none => .error (.invalidData "unverified group member")
      | some row =>
        if row.mlsKey ≠ identity.signatureKey then
          .error (.invalidData "MLS signing key differs from verified contact")
        else .ok bytes
    else .error (.invalidData "MLS credential must be a Grotto UserId")

def verifies (s : Store mls) (identity : SigningIdentity) : Bool := (s.verify identity).isOk

end Store

section Rest

variable {mls : Mls} {s t : Store mls}

theorem saveOutbox_rest {id : MessageId} {kind : String} {message : Bytes}
    (saved : s.saveOutbox id kind message = .ok t) : t = { s with outbox := t.outbox } := by
  unfold Store.saveOutbox at saved
  split at saved
  · split at saved
    · cases saved
    · obtain rfl := Except.ok.inj saved
      rfl
  · obtain rfl := Except.ok.inj saved
    rfl

theorem insertInbox_rest {row : InboxRow} (inserted : s.insertInbox row = .ok t) :
    t = { s with deliveryInbox := t.deliveryInbox } := by
  unfold Store.insertInbox at inserted
  split at inserted
  · cases inserted
  · obtain rfl := Except.ok.inj inserted
    rfl

theorem recordPlaintext_rest (s : Store mls) (row : HistoryRow) : s.recordPlaintext row =
    { s with authenticatedHistory := (s.recordPlaintext row).authenticatedHistory } := by
  unfold Store.recordPlaintext
  split
  · rfl
  · rfl

theorem upsertRoom_rest {room : RoomId} {name origin : String}
    (named : s.upsertRoom room name origin = .ok t) : t = { s with rooms := t.rooms } := by
  unfold Store.upsertRoom at named
  split at named
  · cases named
  · obtain rfl := Except.ok.inj named
    rfl

theorem insertCursor_rest {room : RoomId} {n : Nat} (placed : s.insertCursor room n = .ok t) :
    s.deliveryCursors room = none ∧
      t = { s with deliveryCursors := Function.update s.deliveryCursors room (some n) } := by
  unfold Store.insertCursor at placed
  split at placed
  · cases placed
  · rename_i free
    exact ⟨Option.not_isSome_iff_eq_none.mp free, (Except.ok.inj placed).symm⟩

theorem insertIntent_rest {row : IntentRow} (inserted : s.insertIntent row = .ok t) :
    (∀ found ∈ s.deliveryIntents, found.id ≠ row.id ∧ found.room ≠ row.room) ∧
      t = { s with deliveryIntents := s.deliveryIntents ++ [row] } := by
  unfold Store.insertIntent at inserted
  split at inserted
  · cases inserted
  · rename_i free
    refine ⟨fun found present => ?_, (Except.ok.inj inserted).symm⟩
    have apart := fun same => free (List.any_eq_true.mpr ⟨found, present, decide_eq_true same⟩)
    exact ⟨fun same => apart (.inl same), fun same => apart (.inr same)⟩

end Rest

end Grotto.Client.Tables
