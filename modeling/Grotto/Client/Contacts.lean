/- GID: Grotto/Client/Contacts
   digest: Contact cards and their signatures. -/

import Grotto.Protocol.Hex
import Grotto.Protocol.Transcripts

set_option autoImplicit false

namespace Grotto.Client.Contacts

open Format.Varint (Bytes)
open Format.Postcard (Octets)
open Protocol.Records Protocol.Transcripts Protocol.Hex

inductive StoreError
  | database | lockPoisoned | quota
  | invalidData (reason : String)
  deriving DecidableEq

/-- The primitives the client takes from its cryptographic libraries. -/
structure Crypto where
  sha256 : Hash
  /-- `VerifyingKey::from_bytes` and `verify_strict`. -/
  verifyStrict : Ed25519PublicKeyBytes → Bytes → Ed25519SignatureBytes → Bool

structure ContactCard where
  user : UserId
  transportKey : Ed25519PublicKeyBytes
  mlsKey : Octets 32
  signature : Ed25519SignatureBytes
  deriving DecidableEq

namespace ContactCard

def transcript (card : ContactCard) : Bytes :=
  literal "GROTTO-CONTACT-V1\x00" ++ card.user.bytes.toList ++ card.transportKey.toList ++
    card.mlsKey.toList

def bytes (card : ContactCard) : Bytes :=
  1 :: (card.user.bytes.toList ++ card.transportKey.toList ++ card.mlsKey.toList ++
    card.signature.toList)

def cardBytes : Nat := 145

def encode (card : ContactCard) : List Char := hexText card.bytes

def fingerprint (crypto : Crypto) (card : ContactCard) : List Char :=
  hexText (crypto.sha256 card.bytes).toList

def ofBytes (bytes : Bytes) (length : bytes.length = cardBytes) : ContactCard where
  user := ⟨⟨(bytes.drop 1).take 16, by simp [length, cardBytes]⟩⟩
  transportKey := ⟨(bytes.drop 17).take 32, by simp [length, cardBytes]⟩
  mlsKey := ⟨(bytes.drop 49).take 32, by simp [length, cardBytes]⟩
  signature := ⟨bytes.drop 81, by simp [length, cardBytes]⟩

def parse (crypto : Crypto) (text : List Char) : Except StoreError ContactCard :=
  if text.length ≠ 2 * cardBytes ∨ ¬isAscii text then
    .error (.invalidData "invalid contact card size")
  else
    match hexBytes text with
    | none => .error (.invalidData "invalid contact encoding")
    | some bytes =>
      if length : bytes.length = cardBytes then
        if bytes.head? ≠ some 1 then .error (.invalidData "unsupported contact card version")
        else
          let card := ofBytes bytes length
          if crypto.verifyStrict card.transportKey card.transcript card.signature then .ok card
          else .error (.invalidData "invalid contact signature")
      else .error (.invalidData "invalid contact encoding")

@[simp] theorem length_bytes (card : ContactCard) : card.bytes.length = cardBytes := by
  simp [bytes, cardBytes]

theorem ofBytes_bytes (card : ContactCard) : ofBytes card.bytes card.length_bytes = card := by
  obtain ⟨⟨user, userLength⟩, ⟨transport, transportLength⟩, ⟨key, keyLength⟩, ⟨signature, _⟩⟩ := card
  have past : user.drop 80 = [] := List.drop_eq_nil_of_le (by omega)
  have over' : transport.drop 64 = [] := List.drop_eq_nil_of_le (by omega)
  simp [ofBytes, bytes, userLength, transportLength, keyLength, List.drop_append, List.take_append,
    past, over']

theorem bytes_injective {card other : ContactCard} (same : card.bytes = other.bytes) :
    card = other := by
  rw [← ofBytes_bytes card, ← ofBytes_bytes other]
  simp only [same]

theorem parse_verifies {crypto : Crypto} {text : List Char} {card : ContactCard}
    (parsed : parse crypto text = .ok card) :
    crypto.verifyStrict card.transportKey card.transcript card.signature = true := by
  unfold parse at parsed
  split at parsed
  · cases parsed
  split at parsed
  · cases parsed
  split at parsed
  · split at parsed
    · cases parsed
    dsimp only at parsed
    split at parsed
    · rename_i verified
      cases parsed
      exact verified
    · cases parsed
  · cases parsed

theorem parse_encode {crypto : Crypto} {card read : ContactCard}
    (parsed : parse crypto card.encode = .ok read) : read = card := by
  unfold parse encode at parsed
  split at parsed
  · cases parsed
  rw [hexBytes_hexText] at parsed
  dsimp only at parsed
  rw [dif_pos card.length_bytes] at parsed
  split at parsed
  · cases parsed
  rw [ofBytes_bytes] at parsed
  split at parsed
  · cases parsed
    rfl
  · cases parsed

end ContactCard

end Grotto.Client.Contacts
