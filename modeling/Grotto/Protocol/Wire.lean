/- GID: Grotto/Protocol/Wire
   digest: Wire formats of the V9 records and the payload-limited message codec. -/

import Grotto.Protocol.Records

set_option autoImplicit false

namespace Grotto.Protocol.Wire

open Format.Varint Format.Combinators Format.Postcard
open Records

class Serde (α : Type) where
  codec : Codec α

abbrev serde (α : Type) [Serde α] : Codec α := Serde.codec

def userId : Codec UserId := (octets 16).iso UserId.bytes UserId.mk (fun _ => rfl) (fun _ => rfl)
def roomId : Codec RoomId := (octets 16).iso RoomId.bytes RoomId.mk (fun _ => rfl) (fun _ => rfl)
def messageId : Codec MessageId :=
  (octets 16).iso MessageId.bytes MessageId.mk (fun _ => rfl) (fun _ => rfl)

/-- The lengths a decoder accepts; the encoding does not depend on them. -/
structure Bounds where
  body : Nat
  package : Nat
  name : Nat
  page : Nat
  packages : Nat

/-- The limits of the `bounded_*` deserializers. -/
def wire : Bounds where
  body := 512 * 1024
  package := 16 * 1024
  name := 400
  page := 100
  packages := 64

/-- Every length a `usize` can hold. -/
def loose : Bounds where
  body := 2 ^ 64 - 1
  package := 2 ^ 64 - 1
  name := 2 ^ 64 - 1
  page := 2 ^ 64 - 1
  packages := 2 ^ 64 - 1

def MlsContentType.index : MlsContentType → Nat
  | .application => 0
  | .proposal => 1
  | .commit => 2

def contentType : Codec MlsContentType :=
  tag u32 MlsContentType.index [.application, .proposal, .commit] (by rintro (_ | _) <;> decide)

def welcomeAttachment (b : Bounds) : Codec WelcomeAttachment :=
  (userId.prod ((bytes b.body).prod (octets 64))).iso
    (fun w => (w.recipient, w.body, w.signature)) (fun p => ⟨p.1, p.2.1, p.2.2⟩)
    (fun _ => rfl) (fun _ => rfl)

def append (b : Bounds) : Codec Append :=
  (roomId.prod (u64.prod (u64.prod (contentType.prod ((bytes b.body).prod
    (option (welcomeAttachment b))))))).iso
    (fun a => (a.room, a.parent, a.epoch, a.contentType, a.body, a.welcome))
    (fun p => ⟨p.1, p.2.1, p.2.2.1, p.2.2.2.1, p.2.2.2.2.1, p.2.2.2.2.2⟩)
    (fun _ => rfl) (fun _ => rfl)

def event (b : Bounds) : Codec Event :=
  (messageId.prod (userId.prod (append b))).iso
    (fun e => (e.id, e.sender, e.operation)) (fun p => ⟨p.1, p.2.1, p.2.2⟩)
    (fun _ => rfl) (fun _ => rfl)

def welcomeDelivery (b : Bounds) : Codec WelcomeDelivery :=
  ((string b.name).prod (u64.prod (messageId.prod (roomId.prod (u64.prod
    (userId.prod (welcomeAttachment b))))))).iso
    (fun w => (w.roomName, w.cursor, w.event, w.room, w.sequence, w.inviter, w.attachment))
    (fun p => ⟨p.1, p.2.1, p.2.2.1, p.2.2.2.1, p.2.2.2.2.1, p.2.2.2.2.2.1, p.2.2.2.2.2.2⟩)
    (fun _ => rfl) (fun _ => rfl)

def roomHead (b : Bounds) : Codec RoomHead :=
  (roomId.prod ((string b.name).prod u64)).iso
    (fun h => (h.room, h.name, h.sequence)) (fun p => ⟨p.1, p.2.1, p.2.2⟩)
    (fun _ => rfl) (fun _ => rfl)

inductive RequestTag
  | createRoom | publishKeyPackages | acknowledge | appendRoomOperation | fetchRoomEvents
  | syncIndex | fetchWelcomes | reserveKeyPackage | setFetchGrant
  deriving DecidableEq

def RequestTag.code : RequestTag → UInt8
  | .createRoom => 0
  | .publishKeyPackages => 1
  | .acknowledge => 2
  | .appendRoomOperation => 3
  | .fetchRoomEvents => 4
  | .syncIndex => 5
  | .fetchWelcomes => 6
  | .reserveKeyPackage => 7
  | .setFetchGrant => 8

def requestTag : Codec RequestTag :=
  tag Codec.byte RequestTag.code
    [.createRoom, .publishKeyPackages, .acknowledge, .appendRoomOperation, .fetchRoomEvents,
      .syncIndex, .fetchWelcomes, .reserveKeyPackage, .setFetchGrant]
    (by rintro (_ | _) <;> decide)

def RequestTag.Fields : RequestTag → Type
  | .createRoom => String
  | .publishKeyPackages => List Bytes
  | .acknowledge => List MessageId × List UInt64
  | .appendRoomOperation => Append
  | .fetchRoomEvents => RoomId × UInt64
  | .syncIndex => Option RoomId
  | .fetchWelcomes => UInt64
  | .reserveKeyPackage => UserId
  | .setFetchGrant => UserId × Bool

def requestFields (b : Bounds) : (t : RequestTag) → Codec t.Fields
  | .createRoom => string b.name
  | .publishKeyPackages => seq b.packages (bytes b.package)
  | .acknowledge => (seq b.page messageId).prod (seq b.page u64)
  | .appendRoomOperation => append b
  | .fetchRoomEvents => roomId.prod u64
  | .syncIndex => option roomId
  | .fetchWelcomes => u64
  | .reserveKeyPackage => userId
  | .setFetchGrant => userId.prod bool

def request (b : Bounds) : Codec Request :=
  (requestTag.dependent (requestFields b)).iso
    (fun
      | .createRoom n => ⟨.createRoom, n⟩
      | .publishKeyPackages ps => ⟨.publishKeyPackages, ps⟩
      | .acknowledge es ws => ⟨.acknowledge, (es, ws)⟩
      | .appendRoomOperation a => ⟨.appendRoomOperation, a⟩
      | .fetchRoomEvents r s => ⟨.fetchRoomEvents, (r, s)⟩
      | .syncIndex r => ⟨.syncIndex, r⟩
      | .fetchWelcomes c => ⟨.fetchWelcomes, c⟩
      | .reserveKeyPackage u => ⟨.reserveKeyPackage, u⟩
      | .setFetchGrant u b => ⟨.setFetchGrant, (u, b)⟩)
    (fun
      | ⟨.createRoom, n⟩ => .createRoom n
      | ⟨.publishKeyPackages, ps⟩ => .publishKeyPackages ps
      | ⟨.acknowledge, (es, ws)⟩ => .acknowledge es ws
      | ⟨.appendRoomOperation, a⟩ => .appendRoomOperation a
      | ⟨.fetchRoomEvents, (r, s)⟩ => .fetchRoomEvents r s
      | ⟨.syncIndex, r⟩ => .syncIndex r
      | ⟨.fetchWelcomes, c⟩ => .fetchWelcomes c
      | ⟨.reserveKeyPackage, u⟩ => .reserveKeyPackage u
      | ⟨.setFetchGrant, (u, b)⟩ => .setFetchGrant u b)
    (by rintro (_ | _) <;> rfl)
    (by rintro ⟨(_ | _), _⟩ <;> rfl)

def Rejection.code : Rejection → UInt8
  | .invalid => 0
  | .unauthorized => 1
  | .notFound => 2
  | .requestConflict => 3
  | .overloaded => 4
  | .quota => 5
  | .internal => 6

def rejection : Codec Rejection :=
  tag Codec.byte Rejection.code
    [.invalid, .unauthorized, .notFound, .requestConflict, .overloaded, .quota, .internal]
    (by rintro (_ | _) <;> decide)

inductive ResponseTag
  | roomCreated | keyPackagesPublished | acknowledged | appendAccepted | headConflict | roomEvents
  | syncIndex | welcomes | keyPackage | fetchGrantSet | rejected
  deriving DecidableEq

def ResponseTag.code : ResponseTag → UInt8
  | .roomCreated => 0
  | .keyPackagesPublished => 1
  | .acknowledged => 2
  | .appendAccepted => 3
  | .headConflict => 4
  | .roomEvents => 5
  | .syncIndex => 6
  | .welcomes => 7
  | .keyPackage => 8
  | .fetchGrantSet => 9
  | .rejected => 10

def responseTag : Codec ResponseTag :=
  tag Codec.byte ResponseTag.code
    [.roomCreated, .keyPackagesPublished, .acknowledged, .appendAccepted, .headConflict,
      .roomEvents, .syncIndex, .welcomes, .keyPackage, .fetchGrantSet, .rejected]
    (by rintro (_ | _) <;> decide)

def ResponseTag.Fields : ResponseTag → Type
  | .roomCreated => RoomId
  | .keyPackagesPublished => UInt64
  | .acknowledged => Unit
  | .appendAccepted => Event
  | .headConflict => RoomId × UInt64
  | .roomEvents => RoomId × UInt64 × List Event × Bool
  | .syncIndex => List RoomHead × Bool
  | .welcomes => UInt64 × List WelcomeDelivery × Bool
  | .keyPackage => UserId × Bytes
  | .fetchGrantSet => Unit
  | .rejected => Rejection

def responseFields (b : Bounds) : (t : ResponseTag) → Codec t.Fields
  | .roomCreated => roomId
  | .keyPackagesPublished => u64
  | .acknowledged => Codec.unit
  | .appendAccepted => event b
  | .headConflict => roomId.prod u64
  | .roomEvents => roomId.prod (u64.prod ((seq b.page (event b)).prod bool))
  | .syncIndex => (seq b.page (roomHead b)).prod bool
  | .welcomes => u64.prod ((seq b.page (welcomeDelivery b)).prod bool)
  | .keyPackage => userId.prod (bytes b.package)
  | .fetchGrantSet => Codec.unit
  | .rejected => rejection

def response (b : Bounds) : Codec Response :=
  (responseTag.dependent (responseFields b)).iso
    (fun
      | .roomCreated r => ⟨.roomCreated, r⟩
      | .keyPackagesPublished n => ⟨.keyPackagesPublished, n⟩
      | .acknowledged => ⟨.acknowledged, ()⟩
      | .appendAccepted e => ⟨.appendAccepted, e⟩
      | .headConflict r h => ⟨.headConflict, (r, h)⟩
      | .roomEvents r s es m => ⟨.roomEvents, (r, s, es, m)⟩
      | .syncIndex rs m => ⟨.syncIndex, (rs, m)⟩
      | .welcomes c ws m => ⟨.welcomes, (c, ws, m)⟩
      | .keyPackage u p => ⟨.keyPackage, (u, p)⟩
      | .fetchGrantSet => ⟨.fetchGrantSet, ()⟩
      | .rejected r => ⟨.rejected, r⟩)
    (fun
      | ⟨.roomCreated, r⟩ => .roomCreated r
      | ⟨.keyPackagesPublished, n⟩ => .keyPackagesPublished n
      | ⟨.acknowledged, _⟩ => .acknowledged
      | ⟨.appendAccepted, e⟩ => .appendAccepted e
      | ⟨.headConflict, (r, h)⟩ => .headConflict r h
      | ⟨.roomEvents, (r, s, es, m)⟩ => .roomEvents r s es m
      | ⟨.syncIndex, (rs, m)⟩ => .syncIndex rs m
      | ⟨.welcomes, (c, ws, m)⟩ => .welcomes c ws m
      | ⟨.keyPackage, (u, p)⟩ => .keyPackage u p
      | ⟨.fetchGrantSet, _⟩ => .fetchGrantSet
      | ⟨.rejected, r⟩ => .rejected r)
    (by rintro (_ | _) <;> rfl)
    (by rintro ⟨(_ | _), _⟩ <;> rfl)

def ClientMessageKind.code : ClientMessageKind → UInt8
  | .clientHello => 1
  | .clientIdentify => 102
  | .clientAuthenticationResponse => 3
  | .delivery => 100

def clientMessageKind : Codec ClientMessageKind :=
  tag Codec.byte ClientMessageKind.code
    [.clientHello, .clientIdentify, .clientAuthenticationResponse, .delivery]
    (by rintro (_ | _) <;> decide)

def ClientFields : ClientMessageKind → Type
  | .clientHello => UInt16
  | .clientIdentify => UserId × Octets 32 × Option (Octets 32)
  | .clientAuthenticationResponse => Octets 64
  | .delivery => MessageId × Request

def clientFields (b : Bounds) : (t : ClientMessageKind) → Codec (ClientFields t)
  | .clientHello => u16
  | .clientIdentify => userId.prod ((octets 32).prod (option (octets 32)))
  | .clientAuthenticationResponse => octets 64
  | .delivery => messageId.prod (request b)

def clientMessage (b : Bounds) : Codec ClientMessage :=
  (clientMessageKind.dependent (clientFields b)).iso
    (fun
      | .clientHello v => ⟨.clientHello, v⟩
      | .clientIdentify u k e => ⟨.clientIdentify, (u, k, e)⟩
      | .clientAuthenticationResponse s => ⟨.clientAuthenticationResponse, s⟩
      | .delivery i r => ⟨.delivery, (i, r)⟩)
    (fun
      | ⟨.clientHello, v⟩ => .clientHello v
      | ⟨.clientIdentify, (u, k, e)⟩ => .clientIdentify u k e
      | ⟨.clientAuthenticationResponse, s⟩ => .clientAuthenticationResponse s
      | ⟨.delivery, (i, r)⟩ => .delivery i r)
    (by rintro (_ | _) <;> rfl)
    (by rintro ⟨(_ | _), _⟩ <;> rfl)

inductive ErrorTag
  | unsupportedVersion | unexpectedMessage | invalidPublicKey | identityKeyConflict
  | authenticationFailed
  deriving DecidableEq

def ErrorTag.code : ErrorTag → UInt8
  | .unsupportedVersion => 1
  | .unexpectedMessage => 2
  | .invalidPublicKey => 3
  | .identityKeyConflict => 4
  | .authenticationFailed => 5

def ErrorTag.Fields : ErrorTag → Type
  | .unsupportedVersion => UInt16 × UInt16
  | .unexpectedMessage => ClientMessageKind × ClientMessageKind
  | _ => Unit

def errorFields : (t : ErrorTag) → Codec t.Fields
  | .unsupportedVersion => u16.prod u16
  | .unexpectedMessage => clientMessageKind.prod clientMessageKind
  | .invalidPublicKey => Codec.unit
  | .identityKeyConflict => Codec.unit
  | .authenticationFailed => Codec.unit

def protocolError : Codec ProtocolError :=
  ((tag Codec.byte ErrorTag.code
    [.unsupportedVersion, .unexpectedMessage, .invalidPublicKey, .identityKeyConflict,
      .authenticationFailed]
    (by rintro (_ | _) <;> decide)).dependent errorFields).iso
    (fun
      | .unsupportedVersion s r => ⟨.unsupportedVersion, (s, r)⟩
      | .unexpectedMessage e r => ⟨.unexpectedMessage, (e, r)⟩
      | .invalidPublicKey => ⟨.invalidPublicKey, ()⟩
      | .identityKeyConflict => ⟨.identityKeyConflict, ()⟩
      | .authenticationFailed => ⟨.authenticationFailed, ()⟩)
    (fun
      | ⟨.unsupportedVersion, (s, r)⟩ => .unsupportedVersion s r
      | ⟨.unexpectedMessage, (e, r)⟩ => .unexpectedMessage e r
      | ⟨.invalidPublicKey, _⟩ => .invalidPublicKey
      | ⟨.identityKeyConflict, _⟩ => .identityKeyConflict
      | ⟨.authenticationFailed, _⟩ => .authenticationFailed)
    (by rintro (_ | _) <;> rfl)
    (by rintro ⟨(_ | _), _⟩ <;> rfl)

inductive RelayTag
  | serverHello | serverIdentifyAccepted | serverAuthenticationChallenge | protocolError
  | delivery | deliveryChanged
  deriving DecidableEq

def RelayTag.code : RelayTag → UInt8
  | .serverHello => 1
  | .serverIdentifyAccepted => 2
  | .serverAuthenticationChallenge => 3
  | .protocolError => 4
  | .delivery => 100
  | .deliveryChanged => 101

def RelayTag.Fields : RelayTag → Type
  | .serverHello => UInt16
  | .serverIdentifyAccepted => UserId
  | .serverAuthenticationChallenge => Octets 32
  | .protocolError => Option MessageId × ProtocolError
  | .delivery => MessageId × Response
  | .deliveryChanged => Unit

def relayFields (b : Bounds) : (t : RelayTag) → Codec t.Fields
  | .serverHello => u16
  | .serverIdentifyAccepted => userId
  | .serverAuthenticationChallenge => octets 32
  | .protocolError => (option messageId).prod protocolError
  | .delivery => messageId.prod (response b)
  | .deliveryChanged => Codec.unit

def relayMessage (b : Bounds) : Codec RelayMessage :=
  ((tag Codec.byte RelayTag.code
    [.serverHello, .serverIdentifyAccepted, .serverAuthenticationChallenge, .protocolError,
      .delivery, .deliveryChanged]
    (by rintro (_ | _) <;> decide)).dependent (relayFields b)).iso
    (fun
      | .serverHello v => ⟨.serverHello, v⟩
      | .serverIdentifyAccepted u => ⟨.serverIdentifyAccepted, u⟩
      | .serverAuthenticationChallenge c => ⟨.serverAuthenticationChallenge, c⟩
      | .protocolError i e => ⟨.protocolError, (i, e)⟩
      | .delivery i r => ⟨.delivery, (i, r)⟩
      | .deliveryChanged => ⟨.deliveryChanged, ()⟩)
    (fun
      | ⟨.serverHello, v⟩ => .serverHello v
      | ⟨.serverIdentifyAccepted, u⟩ => .serverIdentifyAccepted u
      | ⟨.serverAuthenticationChallenge, c⟩ => .serverAuthenticationChallenge c
      | ⟨.protocolError, (i, e)⟩ => .protocolError i e
      | ⟨.delivery, (i, r)⟩ => .delivery i r
      | ⟨.deliveryChanged, _⟩ => .deliveryChanged)
    (by rintro (_ | _) <;> rfl)
    (by rintro ⟨(_ | _), _⟩ <;> rfl)

instance : Serde Event := ⟨event wire⟩
instance : Serde WelcomeDelivery := ⟨welcomeDelivery wire⟩
instance : Serde Request := ⟨request wire⟩
instance : Serde Response := ⟨response wire⟩
instance : Serde ClientMessage := ⟨clientMessage wire⟩
instance : Serde RelayMessage := ⟨relayMessage wire⟩

inductive EncodeError
  | serializeBufferFull
  deriving DecidableEq

inductive DecodeMessageError
  | payloadLimit | postcard | trailingBytes
  deriving DecidableEq

variable {α : Type} [Serde α]

def encodeMessage (message : α) : Except EncodeError Bytes :=
  if (serde α).size message > maxPayload then .error .serializeBufferFull
  else .ok ((serde α).encode message)

def decodeMessage (α : Type) [Serde α] (bytes : Bytes) : Except DecodeMessageError α :=
  if bytes.length > maxPayload then .error .payloadLimit
  else
    match (serde α).decode bytes with
    | none => .error .postcard
    | some (message, []) => .ok message
    | some (_, _ :: _) => .error .trailingBytes

def WithinBounds (message : α) : Prop := (serde α).Bounded message

def wireSize (message : α) : Nat := (serde α).size message

variable {message : α} {bytes : Bytes}

theorem encodeMessage_ok :
    encodeMessage message = .ok bytes ↔
      wireSize message ≤ maxPayload ∧ bytes = (serde α).encode message := by
  unfold encodeMessage wireSize
  split
  · rename_i large
    simp [Nat.not_le.mpr large]
  · rename_i small
    simp only [Except.ok.injEq, Nat.not_lt.mp small, true_and]
    exact eq_comm

theorem encodeMessage_of_le (fits : wireSize message ≤ maxPayload) :
    encodeMessage message = .ok ((serde α).encode message) :=
  encodeMessage_ok.mpr ⟨fits, rfl⟩

theorem length_of_encodeMessage (encoded : encodeMessage message = .ok bytes) :
    bytes.length = wireSize message := by
  obtain ⟨-, rfl⟩ := encodeMessage_ok.mp encoded
  rfl

theorem decodeMessage_encodeMessage (encoded : encodeMessage message = .ok bytes)
    (bounded : WithinBounds message) : decodeMessage α bytes = .ok message := by
  obtain ⟨fits, rfl⟩ := encodeMessage_ok.mp encoded
  have whole := (serde α).decode_encode message [] bounded
  rw [List.append_nil] at whole
  unfold decodeMessage
  have small : ¬((serde α).encode message).length > maxPayload := Nat.not_lt.mpr fits
  rw [if_neg small, whole]

theorem eq_of_decodeMessage {message read : α} (encoded : encodeMessage message = .ok bytes)
    (decoded : decodeMessage α bytes = .ok read) : read = message := by
  by_cases bounded : WithinBounds message
  · rw [decodeMessage_encodeMessage encoded bounded] at decoded
    exact (Except.ok.inj decoded).symm
  obtain ⟨fits, rfl⟩ := encodeMessage_ok.mp encoded
  have refused := (serde α).decode_excess message [] bounded
  rw [List.append_nil] at refused
  have small : ¬((serde α).encode message).length > maxPayload := Nat.not_lt.mpr fits
  unfold decodeMessage at decoded
  rw [if_neg small, refused] at decoded
  cases decoded

theorem decodeMessage_sound (decoded : decodeMessage α bytes = .ok message) :
    WithinBounds message ∧ wireSize message ≤ bytes.length ∧ bytes.length ≤ maxPayload := by
  unfold decodeMessage at decoded
  split at decoded
  · simp at decoded
  rename_i small
  split at decoded
  · simp at decoded
  · rename_i read
    obtain rfl := Except.ok.inj decoded
    obtain ⟨bounded, used, rfl, short⟩ := (serde α).decode_sound read
    exact ⟨bounded, by simpa [wireSize, Codec.size] using short, Nat.not_lt.mp small⟩
  · simp at decoded

end Grotto.Protocol.Wire
