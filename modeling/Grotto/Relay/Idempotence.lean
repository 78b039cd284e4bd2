/- GID: Grotto/Relay/Idempotence
   digest: A journaled answer is replayed to its request and refuses every other request. -/

import Grotto.Relay.Log
import Grotto.Protocol.RoundTrip

set_option autoImplicit false

namespace Grotto.Relay.Idempotence

open Format.Varint (Bytes)
open Protocol.Records Protocol.Wire Protocol.Transcripts
open Protocol.Sizes Protocol.RoundTrip
open Storage Deliver Steps Invariant
open Log

/-- The answer of a call whose storage works, and the storage fault otherwise. -/
def unlessFault (here : Surroundings) (answer : Except StorageError Response) :
    Except StorageError Response :=
  match here.fault with
  | some fault => .error fault.error
  | none => answer

def OwnIdentifier (sha256 : Hash) (db : Db) (user : UserId) (id : MessageId)
    (request : Request) : Prop :=
  ∀ row, db.savedRequest user id = some row → payloadHash sha256 request = .ok row.hash

/-- No two of these requests share a digest without sharing their bytes. -/
def CollisionFree (sha256 : Hash) (requests : Set Request) : Prop :=
  ∀ r ∈ requests, ∀ s ∈ requests, ∀ v w, encodeMessage r = .ok v → encodeMessage s = .ok w →
    sha256 v = sha256 w → v = w

def Saved (sha256 : Hash) (db : Db) (user : UserId) (id : MessageId) (request : Request)
    (response : Response) : Prop :=
  ∃ row wire, db.savedRequest user id = some row ∧ encodeMessage request = .ok wire ∧
    row.hash = sha256 wire ∧ decodeMessage Response row.response = .ok response

variable {db : Db} {user : UserId} {id : MessageId}

theorem savedRequest_mono {db next : Db} (grown : Extends db next) {row : RequestRow}
    (saved : db.savedRequest user id = some row) : next.savedRequest user id = some row := by
  obtain ⟨more, appended⟩ := grown.requests
  unfold Db.savedRequest at saved ⊢
  rw [← appended, List.find?_append, saved]
  rfl

variable {sha256 : Hash} {request : Request} {response : Response}

theorem Saved.mono {db next : Db} (saved : Saved sha256 db user id request response)
    (grown : Extends db next) : Saved sha256 next user id request response := by
  obtain ⟨row, wire, found, rest⟩ := saved
  exact ⟨row, wire, savedRequest_mono grown found, rest⟩

theorem Saved.replay (saved : Saved sha256 db user id request response) (here : Surroundings) :
    deliver sha256 here db user id request = (unlessFault here (.ok response), db) := by
  obtain ⟨row, wire, found, encoded, hash, decoded⟩ := saved
  unfold deliver unlessFault
  cases here.fault with
  | some fault => rfl
  | none => simp [transact, encoded, found, hash, decodeStored_ok.mpr decoded, Except.map]

/-- A different request under the identifier is refused, or is too large to hash. -/
def refusal (other : Request) : Except StorageError Response :=
  match encodeMessage other with
  | .error _ => .error corrupt
  | .ok _ => .ok (.rejected .requestConflict)

variable {request other : Request}

theorem Saved.refuse (saved : Saved sha256 db user id request response)
    (different : other ≠ request) (injective : CollisionFree sha256 {request, other})
    (here : Surroundings) :
    deliver sha256 here db user id other = (unlessFault here (refusal other), db) := by
  obtain ⟨row, wire, found, encoded, hash, decoded⟩ := saved
  unfold deliver unlessFault refusal
  cases here.fault with
  | some fault => rfl
  | none =>
    cases bytes : encodeMessage other with
    | error e => simp [transact, bytes]
    | ok otherWire =>
      have distinct : row.hash ≠ sha256 otherWire := by
        intro equal
        have same : wire = otherWire :=
          injective request (by simp) other (by simp) wire otherWire encoded bytes
            (hash.symm.trans equal)
        obtain ⟨fits, rfl⟩ := encodeMessage_ok.mp encoded
        obtain ⟨otherFits, whole⟩ := encodeMessage_ok.mp bytes
        exact different (request_eq_of_encode otherFits fits (whole.symm.trans same.symm))
      simp [transact, bytes, found, distinct]

theorem saved_of_settled {here : Surroundings} (valid : Valid sha256 db)
    (durable : request.isRead = false)
    (answer : (deliver sha256 here db user id request).1 = .ok response)
    (settles : Settles request response) (own : OwnIdentifier sha256 db user id request) :
    Saved sha256 (deliver sha256 here db user id request).2 user id request response := by
  have delivers := deliver_delivers sha256 here db user id request
  rw [answer] at delivers
  have after := valid.deliver here user id request
  generalize (deliver sha256 here db user id request).2 = final at delivers after ⊢
  cases delivers with
  | @conflicting wire row encoded saved other =>
    have hash := own row saved
    simp only [payloadHash, encoded, Except.map, Except.ok.injEq] at hash
    exact absurd hash.symm other
  | @replayed wire row _ encoded saved same decoded => exact ⟨row, wire, saved, encoded, same, decoded⟩
  | unsettled durable unused remains => exact absurd settles remains
  | answered read =>
    rw [durable] at read
    exact absurd read Bool.false_ne_true
  | settled journals =>
    obtain ⟨wire, bytes, next, sender, room, encoded, kept, writes, rfl⟩ := journals.witness
    have within := Writes.within valid.toTables writes durable
    refine ⟨⟨user, id, sha256 wire, bytes⟩, wire, ?_, encoded, rfl,
      decodeMessage_encodeMessage kept ((bounded_response response).mpr within)⟩
    exact after.journal.savedRequest_of_mem ⟨user, id, sha256 wire, bytes⟩
      (List.mem_append_right _ (List.mem_singleton_self _))

theorem unchanged_of_unsettled {here : Surroundings}
    (remains : ∀ response, (deliver sha256 here db user id request).1 = .ok response →
      ¬Settles request response) :
    (deliver sha256 here db user id request).2 = db := by
  have delivers := deliver_delivers sha256 here db user id request
  generalize (deliver sha256 here db user id request).1 = answer at delivers remains
  generalize (deliver sha256 here db user id request).2 = final at delivers ⊢
  cases delivers with
  | settled journals => exact absurd journals.settles (remains _ rfl)
  | _ => rfl

/-- Idempotence of a durable request in every state the calls can reach, for an identifier that
no other request owns. -/
theorem request_idempotence (sha256 : Hash) (before : List Call) (here : Surroundings)
    (user : UserId) (id : MessageId) (request : Request) (durable : request.isRead = false) :
    (∀ response,
      (deliver sha256 here (runCalls sha256 Db.empty before) user id request).1 = .ok response →
      Settles request response →
      OwnIdentifier sha256 (runCalls sha256 Db.empty before) user id request →
      ∀ later : List Call, ∀ again : Surroundings,
        let db := runCalls sha256
          (deliver sha256 here (runCalls sha256 Db.empty before) user id request).2 later
        deliver sha256 again db user id request = (unlessFault again (.ok response), db) ∧
        ∀ other, other ≠ request → CollisionFree sha256 {request, other} →
          deliver sha256 again db user id other = (unlessFault again (refusal other), db)) ∧
    ((∀ response,
      (deliver sha256 here (runCalls sha256 Db.empty before) user id request).1 = .ok response →
      ¬Settles request response) →
      (deliver sha256 here (runCalls sha256 Db.empty before) user id request).2 =
        runCalls sha256 Db.empty before) := by
  refine ⟨?_, unchanged_of_unsettled⟩
  intro response answer settles own later again
  have valid := (Valid.empty sha256).runCalls before
  have saved := (saved_of_settled valid durable answer settles own).mono
    (extends_runCalls sha256 _ later)
  exact ⟨saved.replay again, fun other different injective =>
    saved.refuse different injective again⟩

theorem grant_replayed_after_revocation :
    (deliver leadingBytes idle
      (runCalls leadingBytes (grantCall.after leadingBytes Db.empty) [revokeCall])
      alice firstId (.setFetchGrant bob true)).1 = .ok .fetchGrantSet := by
  have replay := ((request_idempotence leadingBytes [] idle alice firstId (.setFetchGrant bob true)
    rfl).1 .fetchGrantSet (by decide +kernel) (by decide) (fun row saved => nomatch saved)
    [revokeCall] idle).1
  exact congrArg Prod.fst replay

/-- A refusal is itself an answer, yet the request that owns the identifier still gets its own. -/
theorem refused_request_does_not_own_identifier :
    Settles (.setFetchGrant bob false) (.rejected .requestConflict) ∧
    payloadHash leadingBytes (.setFetchGrant bob true) ≠
      payloadHash leadingBytes (.setFetchGrant bob false) ∧
    (deliver leadingBytes idle (runCalls leadingBytes Db.empty [grantCall]) alice firstId
      (.setFetchGrant bob false)).1 = .ok (.rejected .requestConflict) ∧
    (deliver leadingBytes idle
      (deliver leadingBytes idle (runCalls leadingBytes Db.empty [grantCall]) alice firstId
        (.setFetchGrant bob false)).2 alice firstId (.setFetchGrant bob true)).1 =
      .ok .fetchGrantSet := by
  decide +kernel

def Carries (bytes : Bytes) (id : MessageId) (request : Request) : Prop :=
  decodeMessage ClientMessage bytes = .ok (.delivery id request)

theorem Carries.rewrites {bytes : Bytes} (carried : Carries bytes id request) :
    RequestWithin request ∧ ∃ wire, encodeMessage request = .ok wire ∧
      wire.length ≤ bytes.length ∧ decodeMessage Request wire = .ok request := by
  have within : RequestWithin request :=
    (bounded_client (.delivery id request)).mp (decodeMessage_sound carried).1
  have encoded := encodeMessage_of_le (size_of_decoded carried)
  exact ⟨within, _, encoded, (size_lt_of_decoded carried).le,
    decodeMessage_encodeMessage encoded ((bounded_request request).mpr within)⟩

theorem payloadHash_eq_iff {wire bytes : Bytes}
    (encoded : encodeMessage request = .ok wire) (written : encodeMessage other = .ok bytes)
    (injective : CollisionFree sha256 {request, other}) :
    payloadHash sha256 request = payloadHash sha256 other ↔ request = other := by
  refine ⟨fun same => ?_, fun same => congrArg _ same⟩
  simp only [payloadHash, encoded, written, Except.map, Except.ok.injEq] at same
  have whole := injective request (by simp) other (by simp) wire bytes encoded written same
  obtain ⟨fits, rfl⟩ := encodeMessage_ok.mp encoded
  obtain ⟨alsoFits, rfl⟩ := encodeMessage_ok.mp written
  exact request_eq_of_encode fits alsoFits whole

/-- Whatever spelling a message used, its request is recognised by value: a retry is answered from
the journal and any other request under the identifier is refused. -/
theorem request_identity (sha256 : Hash) :
    (∀ bytes id request, Carries bytes id request →
      RequestWithin request ∧ ∃ wire, encodeMessage request = .ok wire ∧
        wire.length ≤ bytes.length ∧ payloadHash sha256 request = .ok (sha256 wire) ∧
        decodeMessage Request wire = .ok request) ∧
    (∀ bytes id request spelling other_id other, Carries bytes id request →
      Carries spelling other_id other → CollisionFree sha256 {request, other} →
      (payloadHash sha256 request = payloadHash sha256 other ↔ request = other)) ∧
    (∀ here db user id request response bytes other, Saved sha256 db user id request response →
      Carries bytes id other → CollisionFree sha256 {request, other} →
      deliver sha256 here db user id other =
        (unlessFault here (.ok (if other = request then response
          else .rejected .requestConflict)), db)) := by
  refine ⟨?_, ?_, ?_⟩
  · intro bytes id request carried
    obtain ⟨within, wire, encoded, short, back⟩ := carried.rewrites
    exact ⟨within, wire, encoded, short, by simp [payloadHash, encoded, Except.map], back⟩
  · intro bytes id request spelling other_id other carried also injective
    obtain ⟨-, wire, encoded, -⟩ := carried.rewrites
    obtain ⟨-, written, alsoEncoded, -⟩ := also.rewrites
    exact payloadHash_eq_iff encoded alsoEncoded injective
  · intro here db user id request response bytes other saved carried injective
    obtain ⟨-, wire, encoded, -⟩ := carried.rewrites
    by_cases same : other = request
    · subst same
      rw [if_pos rfl]
      exact saved.replay here
    · rw [if_neg same, saved.refuse same injective here, refusal, encoded]

theorem padded_request_recognised :
    Carries (100 :: (firstId.bytes.toList ++ [6, 5])) firstId (.fetchWelcomes 5) ∧
    Carries (100 :: (firstId.bytes.toList ++ [6, 0x85, 0])) firstId (.fetchWelcomes 5) ∧
    (payloadHash leadingBytes (.fetchWelcomes 5) = payloadHash leadingBytes (.fetchWelcomes 5) ↔
      Request.fetchWelcomes 5 = .fetchWelcomes 5) := by
  have minimal : Carries (100 :: (firstId.bytes.toList ++ [6, 5])) firstId (.fetchWelcomes 5) := by
    rfl
  have padded : Carries (100 :: (firstId.bytes.toList ++ [6, 0x85, 0])) firstId
      (.fetchWelcomes 5) := by
    rfl
  have alone : CollisionFree leadingBytes {.fetchWelcomes 5, .fetchWelcomes 5} := by
    intro r left s right v w written also _
    obtain rfl : r = .fetchWelcomes 5 := by simpa using left
    obtain rfl : s = .fetchWelcomes 5 := by simpa using right
    exact Except.ok.inj (written.symm.trans also)
  exact ⟨minimal, padded, (request_identity leadingBytes).2.1 _ _ _ _ _ _ minimal padded alone⟩

end Grotto.Relay.Idempotence
