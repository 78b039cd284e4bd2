/- GID: Grotto/Protocol/Transcripts
   digest: Hashed and signed texts over requests, receipts, events and Welcomes. -/

import Grotto.Protocol.Wire

set_option autoImplicit false

namespace Grotto.Protocol.Transcripts

open Format.Varint Format.Postcard
open Records Wire

/-- The digest function; collision freedom is assumed where a result needs it. -/
abbrev Hash := Bytes → Digest

/-- `u64::to_be_bytes`. -/
def beBytes (n : UInt64) : Bytes :=
  [56, 48, 40, 32, 24, 16, 8, 0].map fun shift : Nat => UInt8.ofNat (n.toNat / 2 ^ shift)

def literal (text : String) : Bytes := text.toUTF8.data.toList

def payloadHash (sha256 : Hash) (r : Request) : Except EncodeError Digest :=
  (encodeMessage r).map sha256

def acknowledgementId (sha256 : Hash) (user : UserId) (events : List MessageId)
    (welcomes : List UInt64) : MessageId :=
  let digest := sha256 (literal "GROTTO-RECEIPT-V9\x00" ++ user.bytes.toList ++
    beBytes (UInt64.ofNat events.length) ++ events.flatMap (fun e => e.bytes.toList) ++
    beBytes (UInt64.ofNat welcomes.length) ++ welcomes.flatMap beBytes)
  ⟨⟨digest.toList.take 16, by simp⟩⟩

def eventAuthenticatedData (room : RoomId) (event : MessageId) (parent : UInt64) : Bytes :=
  literal "GROTTO-EVENT-V9\x00" ++ room.bytes.toList ++ event.bytes.toList ++ beBytes parent

@[simp] theorem length_beBytes (n : UInt64) : (beBytes n).length = 8 := rfl

theorem beBytes_injective {n m : UInt64} (same : beBytes n = beBytes m) : n = m := by
  have digit : ∀ a b : Nat, UInt8.ofNat a = UInt8.ofNat b → a % 256 = b % 256 := by
    intro a b equal
    have := congrArg UInt8.toNat equal
    simpa using this
  simp only [beBytes, List.map_cons, List.map_nil, List.cons.injEq, and_true] at same
  obtain ⟨h7, h6, h5, h4, h3, h2, h1, h0⟩ := same
  have d7 := digit _ _ h7
  have d6 := digit _ _ h6
  have d5 := digit _ _ h5
  have d4 := digit _ _ h4
  have d3 := digit _ _ h3
  have d2 := digit _ _ h2
  have d1 := digit _ _ h1
  have d0 := digit _ _ h0
  have left := n.toNat_lt
  have right := m.toNat_lt
  refine UInt64.toNat_inj.mp ?_
  norm_num at d7 d6 d5 d4 d3 d2 d1 d0 left right
  omega

theorem eventAuthenticatedData_injective {room other : RoomId} {event another : MessageId}
    {parent head : UInt64}
    (same : eventAuthenticatedData room event parent = eventAuthenticatedData other another head) :
    room = other ∧ event = another ∧ parent = head := by
  unfold eventAuthenticatedData at same
  rw [List.append_assoc, List.append_assoc, List.append_assoc, List.append_assoc,
    List.append_cancel_left_eq] at same
  obtain ⟨rooms, rest⟩ := List.append_inj same (by simp)
  obtain ⟨events, parents⟩ := List.append_inj rest (by simp)
  refine ⟨?_, ?_, beBytes_injective parents⟩
  · cases room
    cases other
    exact congrArg RoomId.mk (Octets.toList_injective rooms)
  · cases event
    cases another
    exact congrArg MessageId.mk (Octets.toList_injective events)

/-- `u16::to_be_bytes`. -/
def beBytes16 (n : UInt16) : Bytes := [UInt8.ofNat (n.toNat / 2 ^ 8), UInt8.ofNat n.toNat]

def authenticationTranscript (version : UInt16) (user : UserId) (key : Ed25519PublicKeyBytes)
    (challenge : AuthenticationChallenge) : Bytes :=
  literal "GROTTO-AUTH-V1" ++ beBytes16 version ++ user.bytes.toList ++ key.toList ++
    challenge.toList

def welcomeTranscript (sha256 : Hash) (recipient : UserId) (room : RoomId) (event : MessageId)
    (sequence : UInt64) (body : Bytes) : Bytes :=
  literal "GROTTO-WELCOME-V9\x00" ++ recipient.bytes.toList ++ room.bytes.toList ++
    event.bytes.toList ++ beBytes sequence ++ (sha256 body).toList

end Grotto.Protocol.Transcripts
