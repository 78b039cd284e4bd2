/- GID: Grotto/Protocol/Sizes
   digest: Serialized sizes and decoder bounds of the V9 records; requests are told apart by
   their bytes. -/

import Grotto.Protocol.Wire
import Mathlib.Algebra.Order.BigOperators.Group.List

set_option autoImplicit false

namespace Grotto.Protocol.Sizes

open Format.Varint Format.Combinators Format.Postcard
open Records Wire

def utf8Size (s : String) : Nat := s.toUTF8.data.toList.length

@[simp] theorem size_userId (u : UserId) : userId.size u = 16 := by simp [userId]
@[simp] theorem size_roomId (r : RoomId) : roomId.size r = 16 := by simp [roomId]
@[simp] theorem size_messageId (i : MessageId) : messageId.size i = 16 := by simp [messageId]
@[simp] theorem size_contentType (t : MlsContentType) : contentType.size t = 1 := by
  cases t <;> decide
@[simp] theorem bounded_contentType (t : MlsContentType) : contentType.Bounded t ↔ True := by
  cases t <;> simp [contentType, MlsContentType.index]
@[simp] theorem bounded_userId (u : UserId) : userId.Bounded u ↔ True := by simp [userId]
@[simp] theorem bounded_roomId (r : RoomId) : roomId.Bounded r ↔ True := by simp [roomId]
@[simp] theorem bounded_messageId (i : MessageId) : messageId.Bounded i ↔ True := by
  simp [messageId]

@[simp] theorem size_welcomeAttachment (b : Bounds) (w : WelcomeAttachment) :
    (welcomeAttachment b).size w = 80 + varintSize 10 w.body.length + w.body.length := by
  simp only [welcomeAttachment, Codec.size_iso, Codec.size_prod, size_userId, size_bytes,
    size_octets]
  omega

def welcomeSize : Option WelcomeAttachment → Nat
  | none => 0
  | some w => 80 + varintSize 10 w.body.length + w.body.length

@[simp] theorem size_option_welcome (b : Bounds) (w : Option WelcomeAttachment) :
    (option (welcomeAttachment b)).size w = 1 + welcomeSize w := by
  cases w with
  | none => rfl
  | some w => simp only [size_option_some, size_welcomeAttachment, welcomeSize]

@[simp] theorem size_append (b : Bounds) (a : Append) :
    (append b).size a = 18 + varintSize 10 a.parent.toNat + varintSize 10 a.epoch.toNat +
      varintSize 10 a.body.length + a.body.length + welcomeSize a.welcome := by
  simp only [append, Codec.size_iso, Codec.size_prod, size_roomId, size_u64, size_contentType,
    size_bytes, size_option_welcome]
  omega

@[simp] theorem size_event (b : Bounds) (e : Event) :
    (event b).size e = 32 + (append b).size e.operation := by
  simp only [event, Codec.size_iso, Codec.size_prod, size_messageId, size_userId]
  omega

@[simp] theorem size_welcomeDelivery (b : Bounds) (w : WelcomeDelivery) :
    (welcomeDelivery b).size w = varintSize 10 (utf8Size w.roomName) + utf8Size w.roomName +
      varintSize 10 w.cursor.toNat + 48 + varintSize 10 w.sequence.toNat +
      (welcomeAttachment b).size w.attachment := by
  simp only [welcomeDelivery, Codec.size_iso, Codec.size_prod, size_string, size_u64,
    size_messageId, size_roomId, size_userId, utf8Size]
  omega

@[simp] theorem size_roomHead (b : Bounds) (h : RoomHead) :
    (roomHead b).size h = 16 + varintSize 10 (utf8Size h.name) + utf8Size h.name +
      varintSize 10 h.sequence.toNat := by
  simp only [roomHead, Codec.size_iso, Codec.size_prod, size_roomId, size_string, size_u64,
    utf8Size]
  omega

def BodiesWithin (bound : Nat) (a : Append) : Prop :=
  a.body.length ≤ bound ∧ ∀ w, a.welcome = some w → w.body.length ≤ bound

variable {b : Bounds}

theorem bounded_welcomeAttachment (small : b.body < 2 ^ 64) (w : WelcomeAttachment) :
    (welcomeAttachment b).Bounded w ↔ w.body.length ≤ b.body := by
  simp only [welcomeAttachment, Codec.bounded_iso, Codec.bounded_prod, bounded_userId,
    bounded_bytes small, bounded_octets, true_and, and_true]

theorem bounded_append (small : b.body < 2 ^ 64) (a : Append) :
    (append b).Bounded a ↔ BodiesWithin b.body a := by
  obtain ⟨room, parent, epoch, contentType, body, welcome⟩ := a
  cases welcome <;>
    simp [append, BodiesWithin, bounded_bytes small, bounded_welcomeAttachment small]

theorem bounded_event (small : b.body < 2 ^ 64) (e : Event) :
    (event b).Bounded e ↔ BodiesWithin b.body e.operation := by
  simp only [event, Codec.bounded_iso, Codec.bounded_prod, bounded_messageId, bounded_userId,
    bounded_append small, true_and]

theorem bounded_welcomeDelivery (small : b.body < 2 ^ 64) (narrow : b.name < 2 ^ 64)
    (w : WelcomeDelivery) :
    (welcomeDelivery b).Bounded w ↔
      utf8Size w.roomName ≤ b.name ∧ w.attachment.body.length ≤ b.body := by
  simp only [welcomeDelivery, Codec.bounded_iso, Codec.bounded_prod, bounded_string narrow,
    bounded_u64, bounded_messageId, bounded_roomId, bounded_userId,
    bounded_welcomeAttachment small, true_and, utf8Size]

theorem bounded_roomHead (narrow : b.name < 2 ^ 64) (h : RoomHead) :
    (roomHead b).Bounded h ↔ utf8Size h.name ≤ b.name := by
  simp only [roomHead, Codec.bounded_iso, Codec.bounded_prod, bounded_string narrow,
    bounded_roomId, bounded_u64, true_and, and_true, utf8Size]

def fieldsSize : Response → Nat
  | .roomCreated _ => 16
  | .keyPackagesPublished count => varintSize 10 count.toNat
  | .acknowledged => 0
  | .appendAccepted e => (event wire).size e
  | .headConflict _ head => 16 + varintSize 10 head.toNat
  | .roomEvents _ start events _ => 16 + varintSize 10 start.toNat +
      varintSize 10 events.length + (events.map (event wire).size).sum + 1
  | .syncIndex rooms _ => varintSize 10 rooms.length + (rooms.map (roomHead wire).size).sum + 1
  | .welcomes start ws _ => varintSize 10 start.toNat +
      varintSize 10 ws.length + (ws.map (welcomeDelivery wire).size).sum + 1
  | .keyPackage _ package => 16 + varintSize 10 package.length + package.length
  | .fetchGrantSet => 0
  | .rejected _ => 1

theorem size_response (r : Response) : (response wire).size r = fieldsSize r + 1 := by
  cases r with
  | roomCreated room =>
    change roomId.size room + 1 = _
    rw [size_roomId, fieldsSize]
  | keyPackagesPublished count => rfl
  | acknowledged => rfl
  | appendAccepted e => rfl
  | headConflict room head =>
    change (roomId.prod u64).size (room, head) + 1 = _
    simp only [Codec.size_prod, size_roomId, size_u64, fieldsSize]
  | roomEvents room start events more =>
    change (roomId.prod (u64.prod ((seq 100 (event wire)).prod bool))).size
      (room, start, events, more) + 1 = _
    simp only [Codec.size_prod, size_roomId, size_u64, size_seq, size_bool, fieldsSize]
    omega
  | syncIndex rooms more =>
    change ((seq 100 (roomHead wire)).prod bool).size (rooms, more) + 1 = _
    simp only [Codec.size_prod, size_seq, size_bool, fieldsSize]
  | welcomes start ws more =>
    change (u64.prod ((seq 100 (welcomeDelivery wire)).prod bool)).size (start, ws, more) + 1 = _
    simp only [Codec.size_prod, size_u64, size_seq, size_bool, fieldsSize]
    omega
  | keyPackage recipient package =>
    change (userId.prod (bytes wire.package)).size (recipient, package) + 1 = _
    simp only [Codec.size_prod, size_userId, size_bytes, fieldsSize]
    omega
  | fetchGrantSet => rfl
  | rejected reason => rfl

theorem size_deliveryReply (id : MessageId) (r : Response) :
    wireSize (RelayMessage.delivery id r) = 18 + fieldsSize r := by
  change (messageId.prod (response wire)).size (id, r) + 1 = _
  simp only [Codec.size_prod, size_response, size_messageId]
  omega

def FieldsWithin : Response → Prop
  | .appendAccepted e => BodiesWithin wire.body e.operation
  | .roomEvents _ _ events _ =>
    events.length ≤ wire.page ∧ ∀ e ∈ events, BodiesWithin wire.body e.operation
  | .syncIndex rooms _ => rooms.length ≤ wire.page ∧ ∀ h ∈ rooms, utf8Size h.name ≤ wire.name
  | .welcomes _ ws _ => ws.length ≤ wire.page ∧
      ∀ w ∈ ws, utf8Size w.roomName ≤ wire.name ∧ w.attachment.body.length ≤ wire.body
  | .keyPackage _ package => package.length ≤ wire.package
  | _ => True

theorem bounded_response (r : Response) : (response wire).Bounded r ↔ FieldsWithin r := by
  have body : wire.body < 2 ^ 64 := by decide
  have name : wire.name < 2 ^ 64 := by decide
  have page : wire.page < 2 ^ 64 := by decide
  have package : wire.package < 2 ^ 64 := by decide
  cases r with
  | appendAccepted e =>
    change True ∧ (event wire).Bounded e ↔ _
    simp only [bounded_event body, true_and, FieldsWithin]
  | roomEvents room start events more =>
    change True ∧ (roomId.prod (u64.prod ((seq wire.page (event wire)).prod bool))).Bounded
      (room, start, events, more) ↔ _
    simp only [Codec.bounded_prod, bounded_roomId, bounded_u64, bounded_seq page,
      bounded_event body, bounded_bool, true_and, and_true, FieldsWithin]
  | syncIndex rooms more =>
    change True ∧ ((seq wire.page (roomHead wire)).prod bool).Bounded (rooms, more) ↔ _
    simp only [Codec.bounded_prod, bounded_seq page, bounded_roomHead name, bounded_bool,
      true_and, and_true, FieldsWithin]
  | welcomes start ws more =>
    change True ∧ (u64.prod ((seq wire.page (welcomeDelivery wire)).prod bool)).Bounded
      (start, ws, more) ↔ _
    simp only [Codec.bounded_prod, bounded_u64, bounded_seq page,
      bounded_welcomeDelivery body name, bounded_bool, true_and, and_true, FieldsWithin]
  | keyPackage recipient package' =>
    change True ∧ (userId.prod (bytes wire.package)).Bounded (recipient, package') ↔ _
    simp only [Codec.bounded_prod, bounded_userId, bounded_bytes package, true_and, FieldsWithin]
  | roomCreated room =>
    change True ∧ roomId.Bounded room ↔ _
    simp only [bounded_roomId, true_and, FieldsWithin]
  | keyPackagesPublished count =>
    change True ∧ u64.Bounded count ↔ _
    simp only [bounded_u64, true_and, FieldsWithin]
  | headConflict room head =>
    change True ∧ (roomId.prod u64).Bounded (room, head) ↔ _
    simp only [Codec.bounded_prod, bounded_roomId, bounded_u64, true_and, FieldsWithin]
  | acknowledged => exact iff_of_eq (true_and True)
  | fetchGrantSet => exact iff_of_eq (true_and True)
  | rejected reason => exact iff_of_eq (true_and True)

theorem bounded_deliveryReply (id : MessageId) (r : Response) :
    WithinBounds (RelayMessage.delivery id r) ↔ FieldsWithin r := by
  change True ∧ (messageId.prod (response wire)).Bounded (id, r) ↔ _
  rw [Codec.bounded_prod, bounded_messageId, bounded_response, true_and, true_and]

theorem size_appendRequest (a : Append) :
    wireSize (Request.appendRoomOperation a) = (append wire).size a + 1 := rfl

theorem encode_request (b c : Bounds) (r : Request) : (request b).encode r = (request c).encode r := by
  cases r with
  | appendRoomOperation a => rcases a with ⟨_, _, _, _, _, _ | _⟩ <;> rfl
  | _ => rfl

private theorem length_le_sum_of_pos {α : Type} {size : α → Nat} {values : List α}
    (positive : ∀ a, 0 < size a) : values.length ≤ (values.map size).sum := by
  induction values with
  | nil => exact Nat.zero_le _
  | cons a values ih =>
    have one := positive a
    simp only [List.length_cons, List.map_cons, List.sum_cons]
    omega

private theorem le_sum_of_mem {α : Type} {size : α → Nat} {values : List α} {a : α}
    (member : a ∈ values) : size a ≤ (values.map size).sum :=
  List.le_sum_of_mem (List.mem_map_of_mem member)

/-- A request of less than `2 ^ 64` bytes lies within the loose limits. -/
theorem bounded_loose (r : Request) (small : (request loose).size r < 2 ^ 64) :
    (request loose).Bounded r := by
  have body : loose.body < 2 ^ 64 := by decide
  have name' : loose.name < 2 ^ 64 := by decide
  have page : loose.page < 2 ^ 64 := by decide
  have package' : loose.package < 2 ^ 64 := by decide
  have packages' : loose.packages < 2 ^ 64 := by decide
  cases r with
  | createRoom name =>
    change (string loose.name).size name + 1 < 2 ^ 64 at small
    change True ∧ (string loose.name).Bounded name
    rw [size_string] at small
    rw [bounded_string name', true_and]
    change _ ≤ 2 ^ 64 - 1
    omega
  | publishKeyPackages packages =>
    change (seq loose.packages (bytes loose.package)).size packages + 1 < 2 ^ 64 at small
    change True ∧ (seq loose.packages (bytes loose.package)).Bounded packages
    rw [size_seq] at small
    have count : packages.length ≤ (packages.map (bytes loose.package).size).sum :=
      length_le_sum_of_pos fun l => by
        rw [size_bytes]
        exact Nat.add_pos_left (varintSize_pos 9 l.length) _
    rw [bounded_seq packages', true_and]
    refine ⟨?_, fun package member => ?_⟩
    · change _ ≤ 2 ^ 64 - 1
      omega
    have whole : (bytes loose.package).size package ≤ _ := le_sum_of_mem member
    rw [size_bytes] at whole
    rw [bounded_bytes package']
    change _ ≤ 2 ^ 64 - 1
    omega
  | acknowledge events welcomes =>
    change ((seq loose.page messageId).prod (seq loose.page u64)).size (events, welcomes) + 1
      < 2 ^ 64 at small
    change True ∧ ((seq loose.page messageId).prod (seq loose.page u64)).Bounded (events, welcomes)
    simp only [Codec.size_prod, size_seq] at small
    have first : events.length ≤ (events.map messageId.size).sum :=
      length_le_sum_of_pos fun i => by rw [size_messageId]; omega
    have second : welcomes.length ≤ (welcomes.map u64.size).sum :=
      length_le_sum_of_pos fun n => varintSize_pos 9 n.toNat
    simp only [Codec.bounded_prod, bounded_seq page, bounded_messageId, bounded_u64,
      implies_true, and_true, true_and]
    change _ ≤ 2 ^ 64 - 1 ∧ _ ≤ 2 ^ 64 - 1
    omega
  | appendRoomOperation a =>
    change (append loose).size a + 1 < 2 ^ 64 at small
    change True ∧ (append loose).Bounded a
    rw [size_append] at small
    rw [bounded_append body, true_and]
    refine ⟨?_, fun w present => ?_⟩
    · change _ ≤ 2 ^ 64 - 1
      omega
    · rw [present] at small
      simp only [welcomeSize] at small
      change _ ≤ 2 ^ 64 - 1
      omega
  | fetchRoomEvents room start =>
    exact ⟨trivial, (bounded_roomId room).mpr trivial, (bounded_u64 start).mpr trivial⟩
  | syncIndex start =>
    refine ⟨trivial, ?_⟩
    change (option roomId).Bounded start
    cases start <;> simp
  | fetchWelcomes start => exact ⟨trivial, (bounded_u64 start).mpr trivial⟩
  | reserveKeyPackage recipient => exact ⟨trivial, (bounded_userId recipient).mpr trivial⟩
  | setFetchGrant requester allowed =>
    exact ⟨trivial, (bounded_userId requester).mpr trivial, trivial⟩

theorem request_eq_of_encode {r s : Request} (left : wireSize r ≤ maxPayload)
    (right : wireSize s ≤ maxPayload) (equal : (serde Request).encode r = (serde Request).encode s) :
    r = s := by
  have payload : maxPayload < 2 ^ 64 := by decide
  have bounded : ∀ q : Request, wireSize q ≤ maxPayload → (request loose).Bounded q := by
    intro q fits
    refine bounded_loose q ?_
    have same : (request loose).size q = wireSize q :=
      congrArg List.length (encode_request loose wire q)
    omega
  refine (request loose).encode_injective (bounded r left) (bounded s right) ?_
  rw [encode_request loose wire r, encode_request loose wire s]
  exact equal

private theorem encode_event (e : Event) : (event loose).encode e = (event wire).encode e := by
  rcases e with ⟨_, _, _, _, _, _, _, _ | _⟩ <;> rfl

variable {bytes : Bytes}

theorem event_eq_of_encode {e f : Event} (left : encodeMessage e = .ok bytes)
    (right : encodeMessage f = .ok bytes) : e = f := by
  have bounded : ∀ g : Event, wireSize g ≤ maxPayload → (event loose).Bounded g := by
    intro g fits
    have payload : maxPayload < 2 ^ 64 := by decide
    have same : (event loose).size g = wireSize g := congrArg List.length (encode_event g)
    rw [bounded_event (show loose.body < 2 ^ 64 by decide)]
    rw [size_event, size_append] at same
    refine ⟨?_, fun w present => ?_⟩
    · change _ ≤ 2 ^ 64 - 1
      omega
    · rw [present] at same
      simp only [welcomeSize] at same
      change _ ≤ 2 ^ 64 - 1
      omega
  obtain ⟨fitsLeft, rfl⟩ := encodeMessage_ok.mp left
  obtain ⟨fitsRight, equal⟩ := encodeMessage_ok.mp right
  refine (event loose).encode_injective (bounded e fitsLeft) (bounded f fitsRight) ?_
  rw [encode_event e, encode_event f]
  exact equal

theorem encode_delivery (id : MessageId) (r : Request) :
    (serde ClientMessage).encode (.delivery id r) =
      (clientMessageKind.encode .delivery ++ messageId.encode id) ++ (serde Request).encode r :=
  (List.append_assoc _ _ _).symm

theorem wireSize_le_delivery (id : MessageId) (r : Request) :
    wireSize r ≤ wireSize (ClientMessage.delivery id r) := by
  have length := congrArg List.length (encode_delivery id r)
  rw [List.length_append] at length
  change wireSize (ClientMessage.delivery id r) = _ + wireSize r at length
  omega

variable {id : MessageId}

theorem encode_of_delivery {r : Request}
    (encoded : encodeMessage (ClientMessage.delivery id r) = .ok bytes) :
    ∃ wire, encodeMessage r = .ok wire :=
  ⟨_, encodeMessage_of_le ((wireSize_le_delivery id r).trans (encodeMessage_ok.mp encoded).1)⟩

theorem delivery_eq_of_encode {r s : Request}
    (left : encodeMessage (ClientMessage.delivery id r) = .ok bytes)
    (right : encodeMessage (ClientMessage.delivery id s) = .ok bytes) : r = s := by
  obtain ⟨fitsLeft, rfl⟩ := encodeMessage_ok.mp left
  obtain ⟨fitsRight, equal⟩ := encodeMessage_ok.mp right
  rw [encode_delivery, encode_delivery] at equal
  exact request_eq_of_encode ((wireSize_le_delivery id r).trans fitsLeft)
    ((wireSize_le_delivery id s).trans fitsRight) (List.append_cancel_left equal)

theorem wireSize_delivery (id : MessageId) (request : Request) :
    wireSize (ClientMessage.delivery id request) = 16 + wireSize request + 1 := by
  change (messageId.prod (Grotto.Protocol.Wire.request wire)).size (id, request) + 1 = _
  simp only [Codec.size_prod, size_messageId]
  rfl

theorem size_lt_of_decoded {request : Request}
    (decoded : decodeMessage ClientMessage bytes = .ok (.delivery id request)) :
    wireSize request < bytes.length := by
  obtain ⟨-, short, -⟩ := decodeMessage_sound decoded
  rw [wireSize_delivery] at short
  omega

theorem size_of_decoded {request : Request}
    (decoded : decodeMessage ClientMessage bytes = .ok (.delivery id request)) :
    wireSize request ≤ maxPayload :=
  (size_lt_of_decoded decoded).le.trans (decodeMessage_sound decoded).2.2

end Grotto.Protocol.Sizes
