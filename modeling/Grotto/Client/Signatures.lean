/- GID: Grotto/Client/Signatures
   digest: The texts under a transport key's signatures and the hashed text of a receipt are read in one
   way only. -/

import Grotto.Client.Contacts

set_option autoImplicit false

namespace Grotto.Client.Signatures

open Format.Varint (Bytes)
open Format.Postcard (Octets)
open Protocol.Records Protocol.Transcripts
open Contacts

section Records

variable {α β : Type} {f : α → List β} {width : Nat}

theorem records_injective (size : ∀ a, (f a).length = width) (injective : Function.Injective f)
    {xs ys : List α} (length : xs.length = ys.length) (same : xs.flatMap f = ys.flatMap f) : xs = ys := by
  induction xs generalizing ys with
  | nil => exact (List.length_eq_zero_iff.mp length.symm).symm
  | cons x xs ih =>
    obtain ⟨y, ys, rfl⟩ := List.exists_cons_of_length_eq_add_one length.symm
    obtain ⟨first, rest⟩ := List.append_inj same ((size x).trans (size y).symm)
    rw [injective first, ih (Nat.succ.inj length) rest]

end Records

section Receipts

/-- A slice: its length is a `usize`. -/
def Slice (α : Type) : Type := {entries : List α // entries.length < 2 ^ 64}

/-- The text that `acknowledgement_id` hashes. -/
def receiptTranscript (user : UserId) (events : Slice MessageId) (welcomes : Slice UInt64) : Bytes :=
  literal "GROTTO-RECEIPT-V9\x00" ++ user.bytes.toList ++
    beBytes (UInt64.ofNat events.1.length) ++ events.1.flatMap (fun e => e.bytes.toList) ++
    beBytes (UInt64.ofNat welcomes.1.length) ++ welcomes.1.flatMap beBytes

theorem acknowledgementId_eq (sha256 : Hash) (user : UserId) (events : Slice MessageId)
    (welcomes : Slice UInt64) : (acknowledgementId sha256 user events.1 welcomes.1).bytes.toList =
      (sha256 (receiptTranscript user events welcomes)).toList.take 16 := rfl

theorem userId_injective : Function.Injective fun id : UserId => id.bytes.toList := by
  rintro ⟨left⟩ ⟨right⟩ same
  exact congrArg UserId.mk (Octets.toList_injective same)

theorem roomId_injective : Function.Injective fun id : RoomId => id.bytes.toList := by
  rintro ⟨left⟩ ⟨right⟩ same
  exact congrArg RoomId.mk (Octets.toList_injective same)

theorem messageId_injective : Function.Injective fun id : MessageId => id.bytes.toList := by
  rintro ⟨left⟩ ⟨right⟩ same
  exact congrArg MessageId.mk (Octets.toList_injective same)

theorem count_injective {α : Type} {xs ys : Slice α}
    (same : beBytes (UInt64.ofNat xs.1.length) = beBytes (UInt64.ofNat ys.1.length)) :
    xs.1.length = ys.1.length := by
  have equal := congrArg UInt64.toNat (beBytes_injective same)
  rwa [UInt64.toNat_ofNat_of_lt' xs.2, UInt64.toNat_ofNat_of_lt' ys.2] at equal

theorem receiptTranscript_injective {user other : UserId} {events events' : Slice MessageId}
    {welcomes welcomes' : Slice UInt64}
    (same : receiptTranscript user events welcomes = receiptTranscript other events' welcomes') :
    user = other ∧ events = events' ∧ welcomes = welcomes' := by
  unfold receiptTranscript at same
  simp only [List.append_assoc, List.append_cancel_left_eq] at same
  obtain ⟨users, same⟩ := List.append_inj same (by simp)
  obtain ⟨eventCount, same⟩ := List.append_inj same (by simp)
  have eventLength := count_injective eventCount
  obtain ⟨eventBytes, same⟩ := List.append_inj same (by simp [eventLength])
  obtain ⟨welcomeCount, welcomeBytes⟩ := List.append_inj same (by simp)
  refine ⟨userId_injective users, Subtype.ext ?_, Subtype.ext ?_⟩
  · exact records_injective (fun e => e.bytes.length_toList) messageId_injective eventLength eventBytes
  · exact records_injective length_beBytes (fun _ _ => beBytes_injective) (count_injective welcomeCount)
      welcomeBytes

end Receipts

section Fields

theorem beBytes16_injective {n m : UInt16} (same : beBytes16 n = beBytes16 m) : n = m := by
  simp only [beBytes16, List.cons.injEq, and_true] at same
  have high := congrArg UInt8.toNat same.1
  have low := congrArg UInt8.toNat same.2
  simp only [UInt8.toNat_ofNat'] at high low
  have left := n.toNat_lt
  have right := m.toNat_lt
  refine UInt16.toNat_inj.mp ?_
  omega

theorem authenticationTranscript_injective {version version' : UInt16} {user user' : UserId}
    {key key' : Ed25519PublicKeyBytes} {challenge challenge' : AuthenticationChallenge}
    (same : authenticationTranscript version user key challenge =
      authenticationTranscript version' user' key' challenge') :
    version = version' ∧ user = user' ∧ key = key' ∧ challenge = challenge' := by
  unfold authenticationTranscript at same
  simp only [List.append_assoc, List.append_cancel_left_eq] at same
  obtain ⟨versions, same⟩ := List.append_inj same rfl
  obtain ⟨users, same⟩ := List.append_inj same (by simp)
  obtain ⟨keys, challenges⟩ := List.append_inj same (by simp)
  exact ⟨beBytes16_injective versions, userId_injective users, Octets.toList_injective keys,
    Octets.toList_injective challenges⟩

theorem welcomeTranscript_injective {sha256 : Hash} {recipient recipient' : UserId}
    {room room' : RoomId} {event event' : MessageId} {sequence sequence' : UInt64} {body body' : Bytes}
    (same : welcomeTranscript sha256 recipient room event sequence body =
      welcomeTranscript sha256 recipient' room' event' sequence' body') :
    recipient = recipient' ∧ room = room' ∧ event = event' ∧ sequence = sequence' ∧
      sha256 body = sha256 body' := by
  unfold welcomeTranscript at same
  simp only [List.append_assoc, List.append_cancel_left_eq] at same
  obtain ⟨recipients, same⟩ := List.append_inj same (by simp)
  obtain ⟨rooms, same⟩ := List.append_inj same (by simp)
  obtain ⟨events, same⟩ := List.append_inj same (by simp)
  obtain ⟨sequences, digests⟩ := List.append_inj same (by simp)
  exact ⟨userId_injective recipients, roomId_injective rooms, messageId_injective events,
    beBytes_injective sequences, Octets.toList_injective digests⟩

theorem contactTranscript_injective {card other : ContactCard}
    (same : card.transcript = other.transcript) :
    card.user = other.user ∧ card.transportKey = other.transportKey ∧ card.mlsKey = other.mlsKey := by
  unfold ContactCard.transcript at same
  simp only [List.append_assoc, List.append_cancel_left_eq] at same
  obtain ⟨users, same⟩ := List.append_inj same (by simp)
  obtain ⟨keys, mlsKeys⟩ := List.append_inj same (by simp)
  exact ⟨userId_injective users, Octets.toList_injective keys, Octets.toList_injective mlsKeys⟩

end Fields

section Purposes

inductive Purpose
  | authentication | welcome | contact

inductive Signed : Purpose → Type
  | authentication (version : UInt16) (user : UserId) (key : Ed25519PublicKeyBytes)
      (challenge : AuthenticationChallenge) : Signed .authentication
  | welcome (recipient : UserId) (room : RoomId) (event : MessageId) (sequence : UInt64)
      (body : Bytes) : Signed .welcome
  | contact (card : ContactCard) : Signed .contact

variable {purpose other : Purpose} {crypto : Crypto}

def Signed.transcript (crypto : Crypto) : Signed purpose → Bytes
  | .authentication version user key challenge => authenticationTranscript version user key challenge
  | .welcome recipient room event sequence body =>
    welcomeTranscript crypto.sha256 recipient room event sequence body
  | .contact card => card.transcript

def Purpose.tag : Purpose → UInt8
  | .authentication => 0x41
  | .welcome => 0x57
  | .contact => 0x43

theorem transcript_tag (signed : Signed purpose) : (signed.transcript crypto)[7]? = some purpose.tag := by
  cases signed with
  | authentication version user key challenge =>
    rw [Signed.transcript, authenticationTranscript, List.append_assoc, List.append_assoc,
      List.append_assoc, List.getElem?_append_left (by decide)]
    decide
  | welcome recipient room event sequence body =>
    rw [Signed.transcript, welcomeTranscript, List.append_assoc, List.append_assoc, List.append_assoc,
      List.append_assoc, List.getElem?_append_left (by decide)]
    decide
  | contact card =>
    rw [Signed.transcript, ContactCard.transcript, List.append_assoc, List.append_assoc,
      List.getElem?_append_left (by decide)]
    decide

theorem purpose_of_transcript {signed : Signed purpose} {another : Signed other}
    (same : signed.transcript crypto = another.transcript crypto) : purpose = other := by
  have tag := @transcript_tag _ crypto signed
  rw [same, transcript_tag] at tag
  cases purpose <;> cases other <;> first | rfl | cases tag

def Binding (crypto : Crypto) : Prop :=
  ∀ key text text' signature, crypto.verifyStrict key text signature = true →
    crypto.verifyStrict key text' signature = true → text = text'

end Purposes

/-- The signed texts of different purposes differ, so that no signature that is bound to its text serves
two of them, and every signed or hashed text determines its fields. -/
theorem transcripts_unambiguous (crypto : Crypto) :
    (∀ (purpose other : Purpose) (signed : Signed purpose) (another : Signed other), purpose ≠ other →
      signed.transcript crypto ≠ another.transcript crypto) ∧
    (Binding crypto → ∀ (purpose other : Purpose) (signed : Signed purpose) (another : Signed other)
      (key : Ed25519PublicKeyBytes) (signature : Ed25519SignatureBytes), purpose ≠ other →
      crypto.verifyStrict key (signed.transcript crypto) signature = true →
      crypto.verifyStrict key (another.transcript crypto) signature = false) ∧
    (∀ version version' user user' key key' challenge challenge',
      authenticationTranscript version user key challenge =
        authenticationTranscript version' user' key' challenge' →
      version = version' ∧ user = user' ∧ key = key' ∧ challenge = challenge') ∧
    (∀ recipient recipient' room room' event event' sequence sequence' body body',
      welcomeTranscript crypto.sha256 recipient room event sequence body =
        welcomeTranscript crypto.sha256 recipient' room' event' sequence' body' →
      recipient = recipient' ∧ room = room' ∧ event = event' ∧ sequence = sequence' ∧
        crypto.sha256 body = crypto.sha256 body') ∧
    (∀ card other : ContactCard, card.transcript = other.transcript →
      card.user = other.user ∧ card.transportKey = other.transportKey ∧ card.mlsKey = other.mlsKey) ∧
    (∀ room room' event event' parent parent',
      eventAuthenticatedData room event parent = eventAuthenticatedData room' event' parent' →
      room = room' ∧ event = event' ∧ parent = parent') ∧
    (∀ user user' events events' welcomes welcomes',
      receiptTranscript user events welcomes = receiptTranscript user' events' welcomes' →
      user = user' ∧ events = events' ∧ welcomes = welcomes') := by
  refine ⟨?_, ?_, ?_, ?_, ?_, ?_, ?_⟩
  · intro purpose other signed another apart same
    exact apart (purpose_of_transcript same)
  · intro binding purpose other signed another key signature apart verified
    refine Bool.eq_false_iff.mpr fun reused => ?_
    exact apart (purpose_of_transcript (binding _ _ _ _ verified reused))
  · intro _ _ _ _ _ _ _ _ same
    exact authenticationTranscript_injective same
  · intro _ _ _ _ _ _ _ _ _ _ same
    exact welcomeTranscript_injective same
  · intro _ _ same
    exact contactTranscript_injective same
  · intro _ _ _ _ _ _ same
    exact eventAuthenticatedData_injective same
  · intro _ _ _ _ _ _ same
    exact receiptTranscript_injective same

def signIn : Signed .authentication :=
  .authentication 9 ⟨Octets.replicate 16 1⟩ (Octets.replicate 32 1) (Octets.replicate 32 2)

/-- A scheme whose one signed text is the authentication of a user. -/
def single : Crypto :=
  let hash : Hash := fun _ => Octets.replicate 32 0
  ⟨hash, fun _ text _ => text == signIn.transcript ⟨hash, fun _ _ _ => false⟩⟩

theorem transcripts_unambiguous_single :
    Binding single ∧ ∀ (card : ContactCard) key signature,
      single.verifyStrict key (signIn.transcript single) signature = true ∧
        single.verifyStrict key card.transcript signature = false := by
  have binding : Binding single := by
    intro _ _ _ _ first second
    exact (eq_of_beq first).trans (eq_of_beq second).symm
  have verified : ∀ key signature,
      single.verifyStrict key (signIn.transcript single) signature = true := fun _ _ => beq_self_eq_true _
  refine ⟨binding, fun card key signature => ⟨verified key signature, ?_⟩⟩
  exact (transcripts_unambiguous single).2.1 binding _ _ signIn (.contact card) key signature
    (by rintro ⟨⟩) (verified key signature)

end Grotto.Client.Signatures
