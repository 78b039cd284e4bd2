/- GID: Grotto/Relay/Enrollment
   digest: Enrollment tokens bind one user and key, expire, and register one identity each. -/

import Grotto.Base.Keyed
import Grotto.Protocol.Hex
import Grotto.Relay.Deliver
import Mathlib.Data.List.Induction

set_option autoImplicit false

namespace Grotto.Relay.Enrollment

open Base.Keyed
open Format.Varint (Bytes)
open Format.Postcard (Octets)
open Protocol.Records Protocol.Transcripts
open Protocol.Hex (hexText)
open Storage

inductive EnrollmentError
  | storage (e : StorageError)
  | identityKeyConflict
  | enrollmentRequired
  deriving DecidableEq

inductive Registration
  | new | existing
  deriving DecidableEq

structure IdentityRow where
  userId : UserId
  publicKey : Ed25519PublicKeyBytes
  deriving DecidableEq

structure TokenRow where
  hash : Digest
  userId : UserId
  fingerprint : Digest
  expires : Int
  consumed : Bool
  deriving DecidableEq

structure Tables where
  identities : List IdentityRow := []
  enrollmentTokens : List TokenRow := []
  deriving DecidableEq

/-- What a call meets: which of its statements fail, the clock its statement reads, and the
randomness of a new token. -/
structure Moment where
  fault : Nat → Option Fault
  time : Int
  random : Option AuthenticationChallenge

def Moment.statement (here : Moment) (n : Nat) : Except EnrollmentError Unit :=
  match here.fault n with
  | some fault => .error (.storage fault.error)
  | none => .ok ()

section Definitions

variable (sha256 : Hash)

def hash (bytes : Bytes) : Digest := sha256 bytes

def Tables.insertToken (tables : Tables) (row : TokenRow) : Except EnrollmentError Tables :=
  if tables.enrollmentTokens.any fun r => r.hash = row.hash then .error (.storage .database)
  else .ok { tables with enrollmentTokens := tables.enrollmentTokens ++ [row] }

/-- The lock and the `INSERT`, which commits by itself. -/
def issue (here : Moment) (tables : Tables) (user : UserId) (fingerprint : Digest)
    (token : AuthenticationChallenge) : Except EnrollmentError Tables := do
  here.statement 0
  here.statement 1
  tables.insertToken ⟨hash sha256 token.toList, user, fingerprint, here.time + 86400, false⟩

def issueEnrollment (here : Moment) (tables : Tables) (user : UserId) (fingerprint : Digest) :
    Except EnrollmentError (List Char) × Tables :=
  match here.random with
  | none => (.error (.storage .random), tables)
  | some token =>
    match issue sha256 here tables user fingerprint token with
    | .error e => (.error e, tables)
    | .ok next => (.ok (hexText token.toList), next)

def Tables.publicKey (tables : Tables) (user : UserId) : Option Ed25519PublicKeyBytes :=
  (tables.identities.find? fun row => row.userId = user).map IdentityRow.publicKey

/-- The condition of the `UPDATE` that consumes a token. -/
def spendable (digest : Digest) (user : UserId) (fingerprint : Digest) (now : Int) (row : TokenRow) :
    Bool :=
  decide (row.hash = digest ∧ row.userId = user ∧ row.fingerprint = fingerprint ∧
    row.expires > now ∧ row.consumed = false)

def Tables.consume (tables : Tables) (digest : Digest) (user : UserId) (fingerprint : Digest)
    (now : Int) : Nat × Tables :=
  (tables.enrollmentTokens.countP (spendable digest user fingerprint now),
    { tables with enrollmentTokens := tables.enrollmentTokens.map fun row =>
        if spendable digest user fingerprint now row then { row with consumed := true } else row })

def Tables.insertIdentity (tables : Tables) (row : IdentityRow) : Except EnrollmentError Tables :=
  if tables.identities.any fun r => r.userId = row.userId then .error (.storage .database)
  else .ok { tables with identities := tables.identities ++ [row] }

def registration (here : Moment) (tables : Tables) (user : UserId) (key : Ed25519PublicKeyBytes)
    (token : Option (Octets 32)) : Except EnrollmentError (Registration × Tables) := do
  here.statement 0
  here.statement 1
  here.statement 2
  match tables.publicKey user with
  | some existing =>
    if existing ≠ key then .error .identityKeyConflict else .ok (.existing, tables)
  | none =>
    match token with
    | none => .error .enrollmentRequired
    | some token => do
        here.statement 3
        let (consumed, marked) := tables.consume (hash sha256 token.toList) user
          (hash sha256 key.toList) here.time
        if consumed ≠ 1 then .error .enrollmentRequired
        else do
          here.statement 4
          let next ← marked.insertIdentity ⟨user, key⟩
          here.statement 5
          .ok (.new, next)

def registerEnrolledIdentity (here : Moment) (tables : Tables) (user : UserId)
    (key : Ed25519PublicKeyBytes) (token : Option (Octets 32)) :
    Except EnrollmentError Registration × Tables :=
  match registration sha256 here tables user key token with
  | .error e => (.error e, tables)
  | .ok (result, next) => (.ok result, next)

inductive Call
  | issue (here : Moment) (user : UserId) (fingerprint : Digest)
  | register (here : Moment) (user : UserId) (key : Ed25519PublicKeyBytes) (token : Option (Octets 32))

def Call.after (tables : Tables) : Call → Tables
  | .issue here user fingerprint => (issueEnrollment sha256 here tables user fingerprint).2
  | .register here user key token => (registerEnrolledIdentity sha256 here tables user key token).2

def tablesAfter (calls : List Call) : Tables := calls.foldl (Call.after sha256) {}

end Definitions

variable {here : Moment} {tables : Tables} {user : UserId} {fingerprint : Digest}
variable {key : Ed25519PublicKeyBytes}

section Steps

variable {result : Registration} {tables next : Tables}

private theorem bind_ok {α β : Type} {first : Except EnrollmentError α}
    {next : α → Except EnrollmentError β} {result : β} (done : first >>= next = .ok result) :
    ∃ value, first = .ok value ∧ next value = .ok result := by
  cases first with
  | error e => cases done
  | ok value => exact ⟨value, rfl, done⟩

theorem statement_of_none {n : Nat} (clear : here.fault n = none) : here.statement n = .ok () := by
  unfold Moment.statement
  rw [clear]

theorem issue_ok {sha256 : Hash} {token : AuthenticationChallenge}
    (issued : issue sha256 here tables user fingerprint token = .ok next) :
    (∀ row ∈ tables.enrollmentTokens, row.hash ≠ sha256 token.toList) ∧
      next = { tables with enrollmentTokens := tables.enrollmentTokens ++
        [⟨sha256 token.toList, user, fingerprint, here.time + 86400, false⟩] } := by
  obtain ⟨-, -, issued⟩ := bind_ok issued
  obtain ⟨-, -, issued⟩ := bind_ok issued
  unfold Tables.insertToken at issued
  split at issued
  · cases issued
  · rename_i free
    refine ⟨fun row listed same => free ?_, (Except.ok.inj issued).symm⟩
    exact List.any_eq_true.mpr ⟨row, listed, decide_eq_true same⟩

theorem issue_cases (sha256 : Hash) (here : Moment) (tables : Tables) (user : UserId)
    (fingerprint : Digest) :
    (∃ e, issueEnrollment sha256 here tables user fingerprint = (.error e, tables)) ∨
      ∃ token, here.random = some token ∧
        (∀ row ∈ tables.enrollmentTokens, row.hash ≠ sha256 token.toList) ∧
        issueEnrollment sha256 here tables user fingerprint = (.ok (hexText token.toList),
          { tables with enrollmentTokens := tables.enrollmentTokens ++
            [⟨sha256 token.toList, user, fingerprint, here.time + 86400, false⟩] }) := by
  unfold issueEnrollment
  cases drawn : here.random with
  | none => exact .inl ⟨_, rfl⟩
  | some token =>
    dsimp only
    cases issued : issue sha256 here tables user fingerprint token with
    | error e => exact .inl ⟨e, rfl⟩
    | ok next =>
      obtain ⟨free, rfl⟩ := issue_ok issued
      exact .inr ⟨token, rfl, free, rfl⟩

theorem publicKey_none (missing : tables.publicKey user = none) :
    ∀ row ∈ tables.identities, row.userId ≠ user := by
  intro row listed same
  have absent := List.find?_eq_none.mp (Option.map_eq_none_iff.mp missing) row listed
  exact absent (decide_eq_true same)

/-- The transaction changes the tables only where it registers an identity. -/
theorem registration_ok {sha256 : Hash} {token : Option (Octets 32)}
    (done : registration sha256 here tables user key token = .ok (result, next)) :
    result = .existing ∧ next = tables ∧ tables.publicKey user = some key ∨
    result = .new ∧ ∃ given, token = some given ∧ (∀ row ∈ tables.identities, row.userId ≠ user) ∧
      (∃ row ∈ tables.enrollmentTokens,
        spendable (sha256 given.toList) user (sha256 key.toList) here.time row = true) ∧
      next = { identities := tables.identities ++ [⟨user, key⟩]
               enrollmentTokens := (tables.consume (sha256 given.toList) user (sha256 key.toList)
                 here.time).2.enrollmentTokens } := by
  obtain ⟨-, -, done⟩ := bind_ok done
  obtain ⟨-, -, done⟩ := bind_ok done
  obtain ⟨-, -, done⟩ := bind_ok done
  split at done
  · rename_i existing registered
    split at done
    · cases done
    · rename_i same
      obtain ⟨rfl, rfl⟩ := Prod.mk.inj (Except.ok.inj done)
      exact .inl ⟨rfl, rfl, registered.trans (congrArg some (not_not.mp same))⟩
  · rename_i missing
    cases token with
    | none => cases done
    | some given =>
      obtain ⟨-, -, done⟩ := bind_ok done
      dsimp only at done
      split at done
      · cases done
      rename_i one
      obtain ⟨-, -, done⟩ := bind_ok done
      obtain ⟨written, inserted, done⟩ := bind_ok done
      obtain ⟨-, -, done⟩ := bind_ok done
      obtain ⟨rfl, rfl⟩ := Prod.mk.inj (Except.ok.inj done)
      unfold Tables.insertIdentity at inserted
      split at inserted
      · cases inserted
      have single : tables.enrollmentTokens.countP
          (spendable (sha256 given.toList) user (sha256 key.toList) here.time) = 1 := not_not.mp one
      have matched := List.countP_pos_iff.mp (single ▸ Nat.one_pos)
      exact .inr ⟨rfl, given, rfl, publicKey_none missing, matched,
        (Except.ok.inj inserted).symm⟩

theorem register_cases (sha256 : Hash) (here : Moment) (tables : Tables) (user : UserId)
    (key : Ed25519PublicKeyBytes) (token : Option (Octets 32)) :
    ((registerEnrolledIdentity sha256 here tables user key token).1 ≠ .ok .new ∧
      (registerEnrolledIdentity sha256 here tables user key token).2 = tables) ∨
    ∃ given, token = some given ∧ (∀ row ∈ tables.identities, row.userId ≠ user) ∧
      (∃ row ∈ tables.enrollmentTokens,
        spendable (sha256 given.toList) user (sha256 key.toList) here.time row = true) ∧
      registerEnrolledIdentity sha256 here tables user key token = (.ok .new,
        { identities := tables.identities ++ [⟨user, key⟩]
          enrollmentTokens := (tables.consume (sha256 given.toList) user (sha256 key.toList)
            here.time).2.enrollmentTokens }) := by
  unfold registerEnrolledIdentity
  cases done : registration sha256 here tables user key token with
  | error e => exact .inl ⟨nofun, rfl⟩
  | ok outcome =>
    obtain ⟨result, next⟩ := outcome
    rcases registration_ok done with ⟨rfl, rfl, -⟩ | ⟨rfl, given, presented, free, spends, rfl⟩
    · exact .inl ⟨by simp, rfl⟩
    · exact .inr ⟨given, presented, free, spends, rfl⟩

theorem publicKey_append {tokens : List TokenRow}
    (free : ∀ row ∈ tables.identities, row.userId ≠ user) :
    Tables.publicKey ⟨tables.identities ++ [⟨user, key⟩], tokens⟩ user = some key := by
  have absent : tables.identities.find? (fun row => row.userId = user) = none :=
    List.find?_eq_none.mpr fun row listed same => free row listed (of_decide_eq_true same)
  unfold Tables.publicKey
  rw [List.find?_append, absent]
  simp

theorem register_publicKey {sha256 : Hash} {token : Option (Octets 32)}
    (done : (registerEnrolledIdentity sha256 here tables user key token).1 = .ok result) :
    (registerEnrolledIdentity sha256 here tables user key token).2.publicKey user = some key := by
  unfold registerEnrolledIdentity at done ⊢
  cases outcome : registration sha256 here tables user key token with
  | error e =>
    rw [outcome] at done
    cases done
  | ok pair =>
    obtain ⟨registered, next⟩ := pair
    rcases registration_ok outcome with ⟨-, rfl, known⟩ | ⟨-, given, -, free, -, rfl⟩
    · exact known
    · exact publicKey_append free

theorem register_registered {sha256 : Hash} {key stored : Ed25519PublicKeyBytes}
    {token : Option (Octets 32)} (registered : tables.publicKey user = some stored)
    (clear : ∀ n < 3, here.fault n = none) :
    registerEnrolledIdentity sha256 here tables user key token =
      (if stored = key then .ok .existing else .error .identityKeyConflict, tables) := by
  have body : registration sha256 here tables user key token =
      if stored ≠ key then .error .identityKeyConflict else .ok (.existing, tables) := by
    unfold registration
    rw [statement_of_none (clear 0 (by decide)), statement_of_none (clear 1 (by decide)),
      statement_of_none (clear 2 (by decide)), registered]
    rfl
  unfold registerEnrolledIdentity
  rw [body]
  by_cases same : stored = key
  · rw [if_neg (not_not.mpr same), if_pos same]
  · rw [if_pos same, if_neg same]

end Steps

variable {token : Octets 32} {calls : List Call} {row : IdentityRow} {digest : Digest}

section Invariant

variable {sha256 : Hash}

/-- A token for a user and a fingerprint was issued among the calls, and is good until `expires`. -/
def Issued (sha256 : Hash) (calls : List Call) (token : Octets 32) (user : UserId)
    (fingerprint : Digest) (expires : Int) : Prop :=
  ∃ before here after, calls = before ++ .issue here user fingerprint :: after ∧
    here.random = some token ∧ expires = here.time + 86400 ∧
    (issueEnrollment sha256 here (tablesAfter sha256 before) user fingerprint).1 =
      .ok (hexText token.toList)

/-- An identity was created by a call that presented a token issued for it and not expired. -/
def Created (sha256 : Hash) (calls : List Call) (row : IdentityRow) (token : Octets 32) : Prop :=
  ∃ before here after expires,
    calls = before ++ .register here row.userId row.publicKey (some token) :: after ∧
    (registerEnrolledIdentity sha256 here (tablesAfter sha256 before) row.userId row.publicKey
      (some token)).1 = .ok .new ∧
    Issued sha256 before token row.userId (sha256 row.publicKey.toList) expires ∧ here.time < expires

structure Enrolled (sha256 : Hash) (calls : List Call) (tables : Tables) : Prop where
  hashes : (tables.enrollmentTokens.map TokenRow.hash).Nodup
  users : (tables.identities.map IdentityRow.userId).Nodup
  issued : ∀ row ∈ tables.enrollmentTokens, ∃ token : Octets 32, row.hash = sha256 token.toList ∧
    Issued sha256 calls token row.userId row.fingerprint row.expires

theorem tablesAfter_concat (calls : List Call) (call : Call) :
    tablesAfter sha256 (calls ++ [call]) = call.after sha256 (tablesAfter sha256 calls) := by
  simp [tablesAfter]

theorem Issued.mono {expires : Int} (more : List Call)
    (issued : Issued sha256 calls token user fingerprint expires) :
    Issued sha256 (calls ++ more) token user fingerprint expires := by
  obtain ⟨before, here, after, rfl, rest⟩ := issued
  exact ⟨before, here, after ++ more, by simp, rest⟩

theorem Created.mono (more : List Call) (created : Created sha256 calls row token) :
    Created sha256 (calls ++ more) row token := by
  obtain ⟨before, here, after, expires, rfl, rest⟩ := created
  exact ⟨before, here, after ++ more, expires, by simp, rest⟩

theorem mem_consume {now : Int} {row : TokenRow}
    (listed : row ∈ (tables.consume digest user fingerprint now).2.enrollmentTokens) :
    ∃ old ∈ tables.enrollmentTokens, row = { old with consumed := row.consumed } := by
  obtain ⟨old, present, rfl⟩ := List.mem_map.mp listed
  refine ⟨old, present, ?_⟩
  split
  · rfl
  · rfl

theorem hashes_consume (tables : Tables) (digest fingerprint : Digest) (user : UserId) (now : Int) :
    (tables.consume digest user fingerprint now).2.enrollmentTokens.map TokenRow.hash =
      tables.enrollmentTokens.map TokenRow.hash := by
  unfold Tables.consume
  rw [List.map_map]
  refine List.map_congr_left fun row _ => ?_
  rw [Function.comp_apply]
  split
  · rfl
  · rfl

theorem enrolled_step (call : Call) (enrolled : Enrolled sha256 calls (tablesAfter sha256 calls)) :
    Enrolled sha256 (calls ++ [call]) (tablesAfter sha256 (calls ++ [call])) := by
  have kept : ∀ row ∈ (tablesAfter sha256 calls).enrollmentTokens, ∃ token : Octets 32,
      row.hash = sha256 token.toList ∧
        Issued sha256 (calls ++ [call]) token row.userId row.fingerprint row.expires := by
    intro row listed
    obtain ⟨token, named, issued⟩ := enrolled.issued row listed
    exact ⟨token, named, issued.mono [call]⟩
  rw [tablesAfter_concat]
  cases call with
  | issue here user fingerprint =>
    dsimp only [Call.after]
    rcases issue_cases sha256 here (tablesAfter sha256 calls) user fingerprint with
      ⟨_, failed⟩ | ⟨token, drawn, free, issued⟩
    · rw [failed]
      exact ⟨enrolled.hashes, enrolled.users, kept⟩
    rw [issued]
    refine ⟨nodup_map_append enrolled.hashes free, enrolled.users, fun row listed => ?_⟩
    rcases List.mem_append.mp listed with old | new
    · exact kept row old
    · rw [List.mem_singleton.mp new]
      exact ⟨token, rfl, calls, here, [], rfl, drawn, rfl, by rw [issued]⟩
  | register here user key token =>
    dsimp only [Call.after]
    rcases register_cases sha256 here (tablesAfter sha256 calls) user key token with
      ⟨-, same⟩ | ⟨given, -, free, -, registered⟩
    · rw [same]
      exact ⟨enrolled.hashes, enrolled.users, kept⟩
    rw [registered]
    refine ⟨?_, nodup_map_append enrolled.users free, fun row listed => ?_⟩
    · rw [hashes_consume]
      exact enrolled.hashes
    · obtain ⟨old, present, shape⟩ := mem_consume listed
      obtain ⟨found, named, issued⟩ := kept old present
      rw [shape]
      exact ⟨found, named, issued⟩

theorem enrolled_after (sha256 : Hash) (calls : List Call) :
    Enrolled sha256 calls (tablesAfter sha256 calls) := by
  induction calls using List.reverseRecOn with
  | nil => exact ⟨List.nodup_nil, List.nodup_nil, nofun⟩
  | append_singleton calls call ih => exact enrolled_step call ih

theorem publicKey_of_mem (distinct : (tables.identities.map IdentityRow.userId).Nodup)
    (listed : row ∈ tables.identities) : tables.publicKey row.userId = some row.publicKey := by
  unfold Tables.publicKey
  rw [find?_of_mem distinct listed]
  rfl

theorem identities_after (call : Call) (tables : Tables) :
    (call.after sha256 tables).identities = tables.identities ∨
      ∃ here user key token, call = .register here user key token ∧
        (∀ row ∈ tables.identities, row.userId ≠ user) ∧
        (call.after sha256 tables).identities = tables.identities ++ [⟨user, key⟩] := by
  cases call with
  | issue here user fingerprint =>
    dsimp only [Call.after]
    rcases issue_cases sha256 here tables user fingerprint with ⟨_, failed⟩ | ⟨_, -, -, issued⟩
    · rw [failed]
      exact .inl rfl
    · rw [issued]
      exact .inl rfl
  | register here user key token =>
    dsimp only [Call.after]
    rcases register_cases sha256 here tables user key token with
      ⟨-, same⟩ | ⟨_, -, free, -, registered⟩
    · rw [same]
      exact .inl rfl
    · rw [registered]
      exact .inr ⟨here, user, key, token, rfl, free, rfl⟩

theorem publicKey_after (known : tables.publicKey user = some key) (call : Call) :
    (call.after sha256 tables).publicKey user = some key := by
  unfold Tables.publicKey at known ⊢
  rcases @identities_after sha256 call tables with same | ⟨_, _, _, _, -, -, added⟩
  · rw [same]
    exact known
  · obtain ⟨row, found, rfl⟩ := Option.map_eq_some_iff.mp known
    rw [added, List.find?_append, found]
    rfl

theorem identities_kept (listed : row ∈ (tablesAfter sha256 calls).identities) (later : List Call) :
    row ∈ (tablesAfter sha256 (calls ++ later)).identities := by
  induction later using List.reverseRecOn with
  | nil =>
    rw [List.append_nil]
    exact listed
  | append_singleton later call ih =>
    rw [← List.append_assoc, tablesAfter_concat]
    rcases @identities_after sha256 call (tablesAfter sha256 (calls ++ later)) with
      same | ⟨_, _, _, _, -, -, added⟩
    · rw [same]
      exact ih
    · rw [added]
      exact List.mem_append_left _ ih

end Invariant

section Provenance

variable {sha256 : Hash}

def CollisionFree (sha256 : Hash) : Prop :=
  ∀ a b : Octets 32, sha256 a.toList = sha256 b.toList → a = b

theorem created_of_identity (injective : CollisionFree sha256)
    (listed : row ∈ (tablesAfter sha256 calls).identities) :
    ∃ token, Created sha256 calls row token := by
  induction calls using List.reverseRecOn with
  | nil => cases listed
  | append_singleton calls call ih =>
    have old : row ∈ (tablesAfter sha256 calls).identities →
        ∃ token, Created sha256 (calls ++ [call]) row token := by
      intro before
      obtain ⟨token, created⟩ := ih before
      exact ⟨token, created.mono [call]⟩
    rw [tablesAfter_concat] at listed
    cases call with
    | issue here user fingerprint =>
      dsimp only [Call.after] at listed
      rcases issue_cases sha256 here (tablesAfter sha256 calls) user fingerprint with
        ⟨_, failed⟩ | ⟨_, -, -, issued⟩
      · rw [failed] at listed
        exact old listed
      · rw [issued] at listed
        exact old listed
    | register here user key token =>
      dsimp only [Call.after] at listed
      rcases register_cases sha256 here (tablesAfter sha256 calls) user key token with
        ⟨-, same⟩ | ⟨given, rfl, -, ⟨spent, present, spends⟩, registered⟩
      · rw [same] at listed
        exact old listed
      rw [registered] at listed
      rcases List.mem_append.mp listed with before | new
      · exact old before
      rw [List.mem_singleton.mp new]
      obtain ⟨named, owner, bound, valid, -⟩ := of_decide_eq_true spends
      obtain ⟨issued, digest, source⟩ := (enrolled_after sha256 calls).issued spent present
      obtain rfl := injective issued given (digest.symm.trans named)
      rw [owner, bound] at source
      exact ⟨issued, calls, here, [], spent.expires, rfl, by rw [registered], source, valid⟩

def Spent (tables : Tables) (digest : Digest) : Prop :=
  ∃ row ∈ tables.enrollmentTokens, row.hash = digest ∧ row.consumed = true

theorem Spent.after (spent : Spent tables digest) (call : Call) :
    Spent (call.after sha256 tables) digest := by
  obtain ⟨row, listed, named, consumed⟩ := spent
  cases call with
  | issue here user fingerprint =>
    dsimp only [Call.after]
    rcases issue_cases sha256 here tables user fingerprint with ⟨_, failed⟩ | ⟨_, -, -, issued⟩
    · rw [failed]
      exact ⟨row, listed, named, consumed⟩
    · rw [issued]
      exact ⟨row, List.mem_append_left _ listed, named, consumed⟩
  | register here user key token =>
    dsimp only [Call.after]
    rcases register_cases sha256 here tables user key token with ⟨-, same⟩ | ⟨_, -, -, -, registered⟩
    · rw [same]
      exact ⟨row, listed, named, consumed⟩
    rw [registered]
    refine ⟨row, List.mem_map.mpr ⟨row, listed, ?_⟩, named, consumed⟩
    rw [if_neg fun spends => ?_]
    have unspent := (of_decide_eq_true spends).2.2.2.2
    rw [consumed] at unspent
    cases unspent

theorem Spent.run (spent : Spent (tablesAfter sha256 calls) digest) (later : List Call) :
    Spent (tablesAfter sha256 (calls ++ later)) digest := by
  induction later using List.reverseRecOn with
  | nil =>
    rw [List.append_nil]
    exact spent
  | append_singleton later call ih =>
    rw [← List.append_assoc, tablesAfter_concat]
    exact ih.after call

theorem spent_of_new
    (new : (registerEnrolledIdentity sha256 here tables user key (some token)).1 = .ok .new) :
    Spent (registerEnrolledIdentity sha256 here tables user key (some token)).2
      (sha256 token.toList) := by
  rcases register_cases sha256 here tables user key (some token) with
    ⟨other, -⟩ | ⟨given, same, -, ⟨row, listed, spends⟩, registered⟩
  · exact absurd new other
  · obtain rfl := Option.some.inj same
    rw [registered]
    refine ⟨{ row with consumed := true }, List.mem_map.mpr ⟨row, listed, if_pos spends⟩, ?_, rfl⟩
    exact (of_decide_eq_true spends).1

theorem not_new_of_spent (distinct : (tables.enrollmentTokens.map TokenRow.hash).Nodup)
    (spent : Spent tables (sha256 token.toList)) :
    (registerEnrolledIdentity sha256 here tables user key (some token)).1 ≠ .ok .new := by
  rcases register_cases sha256 here tables user key (some token) with
    ⟨other, -⟩ | ⟨given, same, -, ⟨row, listed, spends⟩, -⟩
  · exact other
  obtain rfl := Option.some.inj same
  obtain ⟨used, present, named, consumed⟩ := spent
  obtain ⟨digest, -, -, -, unspent⟩ := of_decide_eq_true spends
  rw [List.inj_on_of_nodup_map distinct listed present (digest.trans named.symm), consumed] at unspent
  cases unspent

theorem single_use {before middle : List Call} {here again : Moment} {user other : UserId}
    {key another : Ed25519PublicKeyBytes}
    (new : (registerEnrolledIdentity sha256 here (tablesAfter sha256 before) user key
      (some token)).1 = .ok .new) :
    (registerEnrolledIdentity sha256 again
      (tablesAfter sha256 (before ++ .register here user key (some token) :: middle)) other another
      (some token)).1 ≠ .ok .new := by
  have first : Spent (tablesAfter sha256 (before ++ [.register here user key (some token)]))
      (sha256 token.toList) := by
    rw [tablesAfter_concat]
    exact spent_of_new new
  have later := first.run middle
  rw [List.append_assoc] at later
  exact not_new_of_spent (enrolled_after sha256 _).hashes later

theorem created_once {row other : IdentityRow} (first : Created sha256 calls row token)
    (second : Created sha256 calls other token) : row = other := by
  -- Of two positions in the calls, one is a proper prefix of the other or they are the same.
  have ordered : ∀ {before after before' after' : List Call} {here here' : Moment}
      {row other : IdentityRow} {between : List Call},
      (registerEnrolledIdentity sha256 here (tablesAfter sha256 before) row.userId row.publicKey
        (some token)).1 = .ok .new →
      (registerEnrolledIdentity sha256 here' (tablesAfter sha256 before') other.userId
        other.publicKey (some token)).1 = .ok .new →
      before' = before ++ between →
      .register here row.userId row.publicKey (some token) :: after =
        between ++ .register here' other.userId other.publicKey (some token) :: after' →
      row = other := by
    intro before after before' after' here here' row other between new again place rest
    cases between with
    | nil =>
      obtain ⟨same, -⟩ := List.cons.inj rest
      cases row
      cases other
      cases same
      rfl
    | cons call between =>
      obtain ⟨rfl, -⟩ := List.cons.inj rest
      rw [place] at again
      exact absurd again (single_use new)
  obtain ⟨before, here, after, _, rfl, new, -⟩ := first
  obtain ⟨before', here', after', _, same, again, -⟩ := second
  rcases List.append_eq_append_iff.mp same with ⟨between, place, rest⟩ | ⟨between, place, rest⟩
  · exact ordered new again place rest
  · exact (ordered again new place rest).symm

end Provenance

section Registration

/-- Enrollment over any calls: registered keys stay; an identity was created with an unexpired token
issued for its user and key, one token for each; a consumed token registers nothing more; a
registered user needs no token and no other key is let in; and only new tokens and registrations
change the tables. -/
theorem enrollment_machine (sha256 : Hash) (injective : CollisionFree sha256) (calls : List Call) :
    (∀ row ∈ (tablesAfter sha256 calls).identities,
      (∀ later, (tablesAfter sha256 (calls ++ later)).publicKey row.userId = some row.publicKey) ∧
      (∃ token, Created sha256 calls row token) ∧
      (∀ other ∈ (tablesAfter sha256 calls).identities, ∀ token, Created sha256 calls row token →
        Created sha256 calls other token → row = other) ∧
      ∀ here token, (∀ n < 3, here.fault n = none) →
        registerEnrolledIdentity sha256 here (tablesAfter sha256 calls) row.userId row.publicKey token =
          (.ok .existing, tablesAfter sha256 calls) ∧
        ∀ key, key ≠ row.publicKey →
          registerEnrolledIdentity sha256 here (tablesAfter sha256 calls) row.userId key token =
            (.error .identityKeyConflict, tablesAfter sha256 calls)) ∧
    (∀ here user key token,
      (registerEnrolledIdentity sha256 here (tablesAfter sha256 calls) user key (some token)).1 =
        .ok .new →
      ∀ later again other another, (registerEnrolledIdentity sha256 again
        (tablesAfter sha256 (calls ++ .register here user key (some token) :: later)) other another
        (some token)).1 ≠ .ok .new) ∧
    (∀ here user fingerprint e,
      (issueEnrollment sha256 here (tablesAfter sha256 calls) user fingerprint).1 = .error e →
      (issueEnrollment sha256 here (tablesAfter sha256 calls) user fingerprint).2 =
        tablesAfter sha256 calls) ∧
    ∀ here user key token,
      (registerEnrolledIdentity sha256 here (tablesAfter sha256 calls) user key token).1 ≠ .ok .new →
      (registerEnrolledIdentity sha256 here (tablesAfter sha256 calls) user key token).2 =
        tablesAfter sha256 calls := by
  refine ⟨fun row listed => ⟨fun later => ?_, created_of_identity injective listed, ?_, ?_⟩, ?_, ?_, ?_⟩
  · exact publicKey_of_mem (enrolled_after sha256 _).users (identities_kept listed later)
  · intro other _ token first second
    exact created_once first second
  · intro here token clear
    have registered := publicKey_of_mem (enrolled_after sha256 calls).users listed
    refine ⟨?_, fun key apart => ?_⟩
    · rw [register_registered registered clear, if_pos rfl]
    · rw [register_registered registered clear, if_neg (Ne.symm apart)]
  · intro here user key token new later again other another
    exact single_use new
  · intro here user fingerprint e failed
    rcases issue_cases sha256 here (tablesAfter sha256 calls) user fingerprint with
      ⟨_, unchanged⟩ | ⟨_, -, -, issued⟩
    · rw [unchanged]
    · rw [issued] at failed
      cases failed
  · intro here user key token other
    rcases register_cases sha256 here (tablesAfter sha256 calls) user key token with
      ⟨-, same⟩ | ⟨_, -, -, -, registered⟩
    · exact same
    · rw [registered] at other
      exact absurd rfl other

def noon : Moment := ⟨fun _ => none, 0, some (Octets.replicate 32 3)⟩

/-- A user is given a token for a key of sevens and registers with it. -/
def enrolling : List Call :=
  [.issue noon Deliver.alice (Deliver.leadingBytes (Octets.replicate 32 7).toList),
    .register noon Deliver.alice (Octets.replicate 32 7) (some (Octets.replicate 32 3))]

theorem collisionFree_leadingBytes : CollisionFree Deliver.leadingBytes := by
  intro a b same
  have bytes : (a.toList ++ List.replicate 32 0).take 32 = (b.toList ++ List.replicate 32 0).take 32 :=
    congrArg Octets.toList same
  rw [List.take_left' a.length_toList, List.take_left' b.length_toList] at bytes
  exact Octets.toList_injective bytes

theorem enrollment_machine_enrolling :
    (tablesAfter Deliver.leadingBytes enrolling).identities =
      [⟨Deliver.alice, Octets.replicate 32 7⟩] ∧
    ∃ token, Created Deliver.leadingBytes enrolling ⟨Deliver.alice, Octets.replicate 32 7⟩ token := by
  have registered : (tablesAfter Deliver.leadingBytes enrolling).identities =
      [⟨Deliver.alice, Octets.replicate 32 7⟩] := by
    decide +kernel
  refine ⟨registered, ?_⟩
  have machine := enrollment_machine Deliver.leadingBytes collisionFree_leadingBytes enrolling
  refine (machine.1 _ ?_).2.1
  rw [registered]
  exact List.mem_singleton_self _

end Registration

end Grotto.Relay.Enrollment
