/- GID: Grotto/Protocol/Records
   digest: Identifiers, delivery records, requests, responses and session messages of V9. -/

import Grotto.Format.Postcard
import Mathlib.Data.List.Lex

set_option autoImplicit false

namespace Grotto.Protocol.Records

open Format.Varint (Bytes)
open Format.Postcard (Octets)

structure UserId where
  bytes : Octets 16
  deriving DecidableEq

structure RoomId where
  bytes : Octets 16
  deriving DecidableEq

structure MessageId where
  bytes : Octets 16
  deriving DecidableEq

def RoomId.key (r : RoomId) : List Nat := r.bytes.toList.map UInt8.toNat

theorem RoomId.key_injective : Function.Injective RoomId.key := by
  intro a b equal
  have bytes : a.bytes.toList = b.bytes.toList :=
    List.map_injective_iff.mpr (fun x y same => UInt8.toNat_inj.mp same) equal
  cases a
  cases b
  exact congrArg RoomId.mk (Grotto.Format.Postcard.Octets.toList_injective bytes)

instance : LinearOrder RoomId := LinearOrder.lift' RoomId.key RoomId.key_injective

abbrev Ed25519PublicKeyBytes := Octets 32
abbrev AuthenticationChallenge := Octets 32
abbrev Ed25519SignatureBytes := Octets 64
abbrev Digest := Octets 32

inductive MlsContentType
  | application | proposal | commit
  deriving DecidableEq

structure WelcomeAttachment where
  recipient : UserId
  body : Bytes
  signature : Ed25519SignatureBytes
  deriving DecidableEq

structure Append where
  room : RoomId
  parent : UInt64
  epoch : UInt64
  contentType : MlsContentType
  body : Bytes
  welcome : Option WelcomeAttachment
  deriving DecidableEq

structure Event where
  id : MessageId
  sender : UserId
  operation : Append
  deriving DecidableEq

/-- `checked_add(1)` on the parent. -/
def Event.sequence (e : Event) : Option UInt64 :=
  if e.operation.parent.toNat + 1 < 2 ^ 64 then some (e.operation.parent + 1) else none

structure WelcomeDelivery where
  roomName : String
  cursor : UInt64
  event : MessageId
  room : RoomId
  sequence : UInt64
  inviter : UserId
  attachment : WelcomeAttachment
  deriving DecidableEq

structure RoomHead where
  room : RoomId
  name : String
  sequence : UInt64
  deriving DecidableEq

inductive Request
  | createRoom (name : String)
  | publishKeyPackages (packages : List Bytes)
  | acknowledge (events : List MessageId) (welcomes : List UInt64)
  | appendRoomOperation (operation : Append)
  | fetchRoomEvents (room : RoomId) (afterSequence : UInt64)
  | syncIndex (afterRoom : Option RoomId)
  | fetchWelcomes (afterCursor : UInt64)
  | reserveKeyPackage (recipient : UserId)
  | setFetchGrant (requester : UserId) (allowed : Bool)
  deriving DecidableEq

inductive Rejection
  | invalid | unauthorized | notFound | requestConflict | overloaded | quota | internal
  deriving DecidableEq

inductive Response
  | roomCreated (room : RoomId)
  | keyPackagesPublished (count : UInt64)
  | acknowledged
  | appendAccepted (event : Event)
  | headConflict (room : RoomId) (head : UInt64)
  | roomEvents (room : RoomId) (afterSequence : UInt64) (events : List Event) (more : Bool)
  | syncIndex (rooms : List RoomHead) (more : Bool)
  | welcomes (afterCursor : UInt64) (welcomes : List WelcomeDelivery) (more : Bool)
  | keyPackage (recipient : UserId) (package : Bytes)
  | fetchGrantSet
  | rejected (reason : Rejection)
  deriving DecidableEq

inductive ClientMessageKind
  | clientHello | clientIdentify | clientAuthenticationResponse | delivery
  deriving DecidableEq

inductive ProtocolError
  | unsupportedVersion (supported received : UInt16)
  | unexpectedMessage (expected received : ClientMessageKind)
  | invalidPublicKey
  | identityKeyConflict
  | authenticationFailed
  deriving DecidableEq

inductive ClientMessage
  | clientHello (version : UInt16)
  | clientIdentify (userId : UserId) (publicKey : Ed25519PublicKeyBytes)
      (enrollment : Option (Octets 32))
  | clientAuthenticationResponse (signature : Ed25519SignatureBytes)
  | delivery (requestId : MessageId) (request : Request)
  deriving DecidableEq

def ClientMessage.kind : ClientMessage → ClientMessageKind
  | .clientHello _ => .clientHello
  | .clientIdentify _ _ _ => .clientIdentify
  | .clientAuthenticationResponse _ => .clientAuthenticationResponse
  | .delivery _ _ => .delivery

inductive RelayMessage
  | serverHello (version : UInt16)
  | serverIdentifyAccepted (userId : UserId)
  | serverAuthenticationChallenge (challenge : AuthenticationChallenge)
  | protocolError (requestId : Option MessageId) (error : ProtocolError)
  | delivery (requestId : MessageId) (response : Response)
  | deliveryChanged
  deriving DecidableEq

def protocolVersion : UInt16 := 9

def maxPayload : Nat := 768 * 1024
def pageSize : Nat := 100
def maxRoomNameChars : Nat := 100
def maxKeyPackageBytes : Nat := 16 * 1024
def maxMlsBlobBytes : Nat := 512 * 1024
def i64Max : Nat := 2 ^ 63 - 1

theorem toNat_ofNat_i64 {n : Nat} (bound : n ≤ i64Max) : (UInt64.ofNat n).toNat = n := by
  unfold i64Max at bound
  exact UInt64.toNat_ofNat_of_lt (show n < 2 ^ 64 by omega)

def Request.isRead : Request → Bool
  | .fetchRoomEvents _ _ | .fetchWelcomes _ | .syncIndex _ => true
  | _ => false

def Request.isAcknowledge : Request → Bool
  | .acknowledge _ _ => true
  | _ => false

/-- `char::is_whitespace`: the Unicode White_Space property. -/
def isWhitespace (c : Char) : Bool :=
  let n := c.toNat
  (0x09 ≤ n && n ≤ 0x0d) || n == 0x20 || n == 0x85 || n == 0xa0 || n == 0x1680 ||
    (0x2000 ≤ n && n ≤ 0x200a) || n == 0x2028 || n == 0x2029 || n == 0x202f || n == 0x205f ||
    n == 0x3000

/-- `char::is_control`: the general category Cc. -/
def isControl (c : Char) : Bool :=
  let n := c.toNat
  n ≤ 0x1f || (0x7f ≤ n && n ≤ 0x9f)

/-- `str::trim` on the characters of a text. -/
def trim (cs : List Char) : List Char :=
  ((cs.dropWhile isWhitespace).reverse.dropWhile isWhitespace).reverse

inductive RoomNameError
  | empty | tooLong | controlCharacter
  deriving DecidableEq

def normalizeRoomName (name : String) : Except RoomNameError String :=
  let normalized := trim name.toList
  if normalized = [] then .error .empty
  else if normalized.length > maxRoomNameChars then .error .tooLong
  else if normalized.any isControl then .error .controlCharacter
  else .ok (String.ofList normalized)

variable {p : Char → Bool}

private theorem dropWhile_fixed {cs : List Char}
    (front : ∀ c, cs.head? = some c → p c = false) : cs.dropWhile p = cs := by
  cases cs with
  | nil => rfl
  | cons c cs => simp [front c rfl]

private theorem head_dropWhile {cs : List Char} {c : Char}
    (front : (cs.dropWhile p).head? = some c) : p c = false := by
  induction cs with
  | nil => simp at front
  | cons d cs ih =>
    rw [List.dropWhile_cons] at front
    split at front
    · exact ih front
    · rename_i keeps
      simp only [List.head?_cons, Option.some.injEq] at front
      subst front
      simpa using keeps

private theorem reverse_dropWhile_suffix (cs : List Char) :
    (cs.reverse.dropWhile p).reverse <+: cs := by
  have suffix := List.dropWhile_suffix (l := cs.reverse) p
  simpa using List.reverse_prefix.mpr suffix

theorem trim_trim (cs : List Char) : trim (trim cs) = trim cs := by
  unfold trim
  generalize firstCut : cs.dropWhile isWhitespace = front
  have frontClean : ∀ c, front.head? = some c → isWhitespace c = false := by
    intro c found
    rw [← firstCut] at found
    exact head_dropWhile found
  have middleClean : ∀ c, ((front.reverse.dropWhile isWhitespace).reverse).head? = some c →
      isWhitespace c = false := by
    intro c found
    obtain ⟨tail, split⟩ := reverse_dropWhile_suffix (p := isWhitespace) front
    apply frontClean
    rw [← split]
    cases inner : (front.reverse.dropWhile isWhitespace).reverse with
    | nil => simp [inner] at found
    | cons d ds => simpa [inner] using found
  rw [dropWhile_fixed middleClean]
  simp only [List.reverse_reverse]
  rw [dropWhile_fixed fun c found => head_dropWhile found]

variable {name normal : String}

theorem normalizeRoomName_idempotent
    (normalized : normalizeRoomName name = .ok normal) : normalizeRoomName normal = .ok normal := by
  unfold normalizeRoomName at normalized ⊢
  simp only at normalized ⊢
  split at normalized
  · simp at normalized
  rename_i nonempty
  split at normalized
  · simp at normalized
  rename_i short
  split at normalized
  · simp at normalized
  rename_i printable
  obtain rfl := Except.ok.inj normalized
  have text : trim (String.ofList (trim name.toList)).toList = trim name.toList := by
    rw [String.toList_ofList, trim_trim]
  rw [text, if_neg nonempty, if_neg short, if_neg printable]

private theorem length_flatMap_utf8 (cs : List Char) :
    (cs.flatMap String.utf8EncodeChar).length ≤ 4 * cs.length := by
  induction cs with
  | nil => simp
  | cons c cs ih =>
    have width : c.utf8Size ≤ 4 := Char.utf8Size_le_four c
    simp only [List.flatMap_cons, List.length_append, String.length_utf8EncodeChar,
      List.length_cons]
    omega

theorem normalizeRoomName_size (normalized : normalizeRoomName name = .ok normal) :
    normal.toUTF8.data.toList.length ≤ 400 := by
  unfold normalizeRoomName at normalized
  simp only at normalized
  split at normalized
  · simp at normalized
  split at normalized
  · simp at normalized
  rename_i short
  split at normalized
  · simp at normalized
  obtain rfl := Except.ok.inj normalized
  have bytes := length_flatMap_utf8 (trim name.toList)
  have count : (trim name.toList).length ≤ 100 := by
    simpa [maxRoomNameChars] using short
  have encoded : (String.ofList (trim name.toList)).toUTF8.data.toList =
      (trim name.toList).flatMap String.utf8EncodeChar := by
    simp [String.toUTF8, List.utf8Encode]
  rw [encoded]
  omega

end Grotto.Protocol.Records
