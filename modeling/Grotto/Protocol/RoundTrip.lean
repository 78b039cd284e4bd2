/- GID: Grotto/Protocol/RoundTrip
   digest: A written message is read back exactly when it keeps the decoder's limits. -/

import Grotto.Protocol.Sizes

set_option autoImplicit false

namespace Grotto.Protocol.RoundTrip

open Format.Varint Format.Combinators Format.Postcard
open Records Wire Sizes

section Messages

variable {α : Type} [Serde α]

def Refused (α : Type) [Serde α] (bytes : Bytes) : Prop :=
  ∃ error, decodeMessage α bytes = .error error

theorem refused_of_ne {bytes : Bytes} (unread : ∀ message, decodeMessage α bytes ≠ .ok message) :
    Refused α bytes := by
  cases outcome : decodeMessage α bytes with
  | ok message => exact absurd outcome (unread message)
  | error error => exact ⟨error, outcome⟩

theorem decode_of_decodeMessage {message : α} {bytes : Bytes}
    (decoded : decodeMessage α bytes = .ok message) :
    (serde α).decode bytes = some (message, []) := by
  unfold decodeMessage at decoded
  split at decoded
  · cases decoded
  split at decoded
  · cases decoded
  · rename_i read
    obtain rfl := Except.ok.inj decoded
    exact read
  · cases decoded

variable {message : α} {bytes : Bytes} (encoded : encodeMessage message = .ok bytes)

include encoded

theorem decode_written (more : Bytes) :
    (WithinBounds message ∧ (serde α).decode (bytes ++ more) = some (message, more)) ∨
      (¬WithinBounds message ∧ (serde α).decode (bytes ++ more) = none) := by
  obtain ⟨-, rfl⟩ := encodeMessage_ok.mp encoded
  by_cases bounded : WithinBounds message
  · exact .inl ⟨bounded, (serde α).decode_encode message more bounded⟩
  · exact .inr ⟨bounded, (serde α).decode_excess message more bounded⟩

theorem decodeMessage_iff : decodeMessage α bytes = .ok message ↔ WithinBounds message :=
  ⟨fun decoded => (decodeMessage_sound decoded).1, decodeMessage_encodeMessage encoded⟩

theorem refused_of_excess (excess : ¬WithinBounds message) : Refused α bytes := by
  refine refused_of_ne fun read decoded => excess ?_
  obtain rfl := eq_of_decodeMessage encoded decoded
  exact (decodeMessage_sound decoded).1

theorem refused_prefix {part more : Bytes} (cut : part ++ more = bytes) (missing : more ≠ []) :
    Refused α part := by
  refine refused_of_ne fun read decoded => missing ?_
  have whole := (serde α).decode_append more (decode_of_decodeMessage decoded)
  rw [cut, List.nil_append] at whole
  rcases decode_written encoded [] with ⟨-, same⟩ | ⟨-, none⟩
  · rw [List.append_nil, whole] at same
    exact (Prod.mk.inj (Option.some.inj same)).2
  · rw [List.append_nil, whole] at none
    cases none

theorem refused_extension {more : Bytes} (extra : more ≠ []) : Refused α (bytes ++ more) := by
  refine refused_of_ne fun read decoded => extra ?_
  have whole := decode_of_decodeMessage decoded
  rcases decode_written encoded more with ⟨-, same⟩ | ⟨-, none⟩
  · rw [whole] at same
    exact (Prod.mk.inj (Option.some.inj same)).2.symm
  · rw [whole] at none
    cases none

end Messages

def RequestWithin : Request → Prop
  | .createRoom name => utf8Size name ≤ wire.name
  | .publishKeyPackages packages =>
    packages.length ≤ wire.packages ∧ ∀ package ∈ packages, package.length ≤ wire.package
  | .acknowledge events welcomes => events.length ≤ wire.page ∧ welcomes.length ≤ wire.page
  | .appendRoomOperation a => BodiesWithin wire.body a
  | _ => True

def ClientWithin : ClientMessage → Prop
  | .delivery _ request => RequestWithin request
  | _ => True

def RelayWithin : RelayMessage → Prop
  | .delivery _ response => FieldsWithin response
  | _ => True

example : wire = ⟨512 * 1024, 16 * 1024, 400, 100, 64⟩ := rfl

theorem bounded_request (r : Request) : WithinBounds r ↔ RequestWithin r := by
  have body : wire.body < 2 ^ 64 := by decide
  have name : wire.name < 2 ^ 64 := by decide
  have page : wire.page < 2 ^ 64 := by decide
  have package : wire.package < 2 ^ 64 := by decide
  have packages : wire.packages < 2 ^ 64 := by decide
  cases r with
  | createRoom text =>
    change True ∧ (string wire.name).Bounded text ↔ _
    rw [bounded_string name, true_and]
    rfl
  | publishKeyPackages stock =>
    change True ∧ (seq wire.packages (bytes wire.package)).Bounded stock ↔ _
    simp only [bounded_seq packages, bounded_bytes package, true_and, RequestWithin]
  | acknowledge events welcomes =>
    change True ∧ ((seq wire.page messageId).prod (seq wire.page u64)).Bounded
      (events, welcomes) ↔ _
    simp only [Codec.bounded_prod, bounded_seq page, bounded_messageId, bounded_u64,
      implies_true, and_true, true_and, RequestWithin]
  | appendRoomOperation a =>
    change True ∧ (append wire).Bounded a ↔ _
    rw [bounded_append body, true_and]
    rfl
  | fetchRoomEvents room start =>
    change True ∧ (roomId.prod u64).Bounded (room, start) ↔ _
    simp only [Codec.bounded_prod, bounded_roomId, bounded_u64, true_and, RequestWithin]
  | syncIndex start =>
    change True ∧ (option roomId).Bounded start ↔ _
    cases start <;> simp [RequestWithin]
  | fetchWelcomes start =>
    change True ∧ u64.Bounded start ↔ _
    simp only [bounded_u64, true_and, RequestWithin]
  | reserveKeyPackage recipient =>
    change True ∧ userId.Bounded recipient ↔ _
    simp only [bounded_userId, true_and, RequestWithin]
  | setFetchGrant requester allowed =>
    change True ∧ (userId.prod bool).Bounded (requester, allowed) ↔ _
    simp only [Codec.bounded_prod, bounded_userId, bounded_bool, true_and, RequestWithin]

theorem bounded_client (m : ClientMessage) : WithinBounds m ↔ ClientWithin m := by
  cases m with
  | clientHello version =>
    change True ∧ u16.Bounded version ↔ _
    simp [ClientWithin]
  | clientIdentify user key enrollment =>
    change True ∧ (userId.prod ((octets 32).prod (option (octets 32)))).Bounded
      (user, key, enrollment) ↔ _
    cases enrollment <;> simp [ClientWithin]
  | clientAuthenticationResponse signature =>
    change True ∧ (octets 64).Bounded signature ↔ _
    simp [ClientWithin]
  | delivery id r =>
    change True ∧ (messageId.prod (request wire)).Bounded (id, r) ↔ _
    rw [Codec.bounded_prod, bounded_messageId, true_and, true_and]
    exact bounded_request r

theorem bounded_protocolError (e : ProtocolError) : protocolError.Bounded e ↔ True := by
  refine iff_true_intro ?_
  cases e with
  | unsupportedVersion supported received =>
    exact ⟨trivial, (bounded_u16 supported).mpr trivial, (bounded_u16 received).mpr trivial⟩
  | unexpectedMessage expected received => exact ⟨trivial, trivial, trivial⟩
  | invalidPublicKey => exact ⟨trivial, trivial⟩
  | identityKeyConflict => exact ⟨trivial, trivial⟩
  | authenticationFailed => exact ⟨trivial, trivial⟩

theorem bounded_relay (m : RelayMessage) : WithinBounds m ↔ RelayWithin m := by
  cases m with
  | serverHello version =>
    change True ∧ u16.Bounded version ↔ _
    simp [RelayWithin]
  | serverIdentifyAccepted user =>
    change True ∧ userId.Bounded user ↔ _
    simp [RelayWithin]
  | serverAuthenticationChallenge challenge =>
    change True ∧ (octets 32).Bounded challenge ↔ _
    simp [RelayWithin]
  | protocolError id error =>
    change True ∧ ((option messageId).prod protocolError).Bounded (id, error) ↔ _
    cases id <;> simp [bounded_protocolError, RelayWithin]
  | delivery id response => exact bounded_deliveryReply id response
  | deliveryChanged => exact iff_of_eq (true_and True)

/-- What the decoder does with a written message, its cut versions and its extensions. -/
structure RoundTrips {α : Type} [Serde α] (message : α) (within : Prop) (bytes : Bytes) : Prop where
  reads : decodeMessage α bytes = .ok message ↔ within
  refuses : ¬within → Refused α bytes
  cuts : ∀ part more, more ≠ [] → part ++ more = bytes → Refused α part
  extensions : ∀ more, more ≠ [] → Refused α (bytes ++ more)

theorem roundTrips {α : Type} [Serde α] {message : α} {within : Prop} {bytes : Bytes}
    (bounds : WithinBounds message ↔ within) (encoded : encodeMessage message = .ok bytes) :
    RoundTrips message within bytes where
  reads := (decodeMessage_iff encoded).trans bounds
  refuses excess := refused_of_excess encoded (fun bounded => excess (bounds.mp bounded))
  cuts _ _ missing cut := refused_prefix encoded cut missing
  extensions _ extra := refused_extension encoded extra

/-- Messages in both directions are read back exactly within the limits, and no other spelling that
cuts or extends their bytes is read at all. -/
theorem wire_round_trip :
    (∀ (m : ClientMessage) (bytes : Bytes), encodeMessage m = .ok bytes →
      RoundTrips m (ClientWithin m) bytes) ∧
    (∀ (m : RelayMessage) (bytes : Bytes), encodeMessage m = .ok bytes →
      RoundTrips m (RelayWithin m) bytes) :=
  ⟨fun m _ encoded => roundTrips (bounded_client m) encoded,
    fun m _ encoded => roundTrips (bounded_relay m) encoded⟩

end Grotto.Protocol.RoundTrip
