/- GID: Grotto/Relay/Handshake
   digest: The handshake of the relay as a script, and the only history it accepts a client after. -/

import Grotto.Base.Interaction
import Grotto.Base.Program
import Grotto.Protocol.RoundTrip
import Grotto.Relay.Enrollment
import Grotto.Relay.Hub

set_option autoImplicit false

namespace Grotto.Relay.Handshake

open Base.Interaction Base.Interaction.Script
open Base.Program (mapError_ok)
open Format.Varint (Bytes)
open Format.Postcard (Octets)
open Protocol.Records Protocol.Wire Protocol.Transcripts
open Enrollment

structure Verifier where
  fromBytes : Ed25519PublicKeyBytes → Bool
  verifyStrict : Ed25519PublicKeyBytes → Bytes → Ed25519SignatureBytes → Bool

inductive ErrorKind
  | timedOut | alreadyExists | wouldBlock | brokenPipe | other
  deriving DecidableEq

structure IoError where
  kind : ErrorKind
  reason : String
  deriving DecidableEq

inductive Failure
  | io (e : IoError)
  | encode | decode | random
  | protocol (e : ProtocolError)
  | storage (e : EnrollmentError)
  deriving DecidableEq

inductive Arrival
  | frame (bytes : Bytes)
  | closed
  | timedOut
  | failed (e : IoError)
  deriving DecidableEq

inductive Departure
  | sent
  | timedOut
  | failed (e : IoError)
  deriving DecidableEq

inductive Admission
  | admitted | full | stopped
  deriving DecidableEq

structure Job where
  user : UserId
  key : Ed25519PublicKeyBytes
  enrollment : Option (Octets 32)
  deriving DecidableEq

/-- Each atomic action of a handshake: on the socket, on the generator, on the database worker and
on the hub, whose two locks are taken one after the other. -/
inductive Query
  | read
  | write (bytes : Bytes)
  | generate
  | submit (job : Job)
  | outcome
  | activate (user : UserId)
  | fetchAdd
  | insert (user : UserId) (id : UInt64)
  | unregister (user : UserId) (id : UInt64)
  | deactivate (user : UserId)
  deriving DecidableEq

abbrev Answer : Query → Type
  | .read => Arrival
  | .write _ => Departure
  | .generate => Option AuthenticationChallenge
  | .submit _ => Admission
  | .outcome => Option (Except EnrollmentError Registration)
  | .activate _ => Bool
  | .fetchAdd => UInt64
  | .insert _ _ => Unit
  | .unregister _ _ => Unit
  | .deactivate _ => Unit

structure Session where
  user : UserId
  id : UInt64
  deriving DecidableEq

abbrev Dialogue := Script Query Answer Failure

section Definitions

def decoded (frame : Bytes) : Dialogue ClientMessage :=
  ofExcept ((decodeMessage ClientMessage frame).mapError fun _ => .decode)

/-- A handshake that is cancelled while it waits goes on as if the wait had failed. -/
def readHandshakeFrame (expected : String) : Dialogue (Option Bytes) := do
  let arrival : Arrival ← query Query.read
  match arrival with
  | .frame bytes => pure (some bytes)
  | .closed => pure none
  | .timedOut => fail (.io ⟨.timedOut, "timed out waiting for " ++ expected⟩)
  | .failed e => fail (.io e)

def writeFrame (bytes : Bytes) : Dialogue Unit := do
  let departure : Departure ← query (Query.write bytes)
  match departure with
  | .sent => pure ()
  | .timedOut => fail (.io ⟨.timedOut, "socket write timed out"⟩)
  | .failed e => fail (.io e)

def send (message : RelayMessage) : Dialogue Unit := do
  let encoded ← ofExcept ((encodeMessage message).mapError fun _ => Failure.encode)
  writeFrame encoded

def sendProtocolError (error : ProtocolError) : Dialogue Unit := send (.protocolError none error)

def refuse {α : Type} (error : ProtocolError) : Dialogue α := do
  sendProtocolError error
  fail (.protocol error)

def expectHello (frame : Bytes) : Dialogue Unit := do
  match ← decoded frame with
  | .clientHello version =>
    if version ≠ protocolVersion then refuse (.unsupportedVersion protocolVersion version)
    else send (.serverHello protocolVersion)
  | other => refuse (.unexpectedMessage .clientHello other.kind)

def expectIdentify (frame : Bytes) : Dialogue Job := do
  match ← decoded frame with
  | .clientIdentify user key enrollment => pure ⟨user, key, enrollment⟩
  | other => refuse (.unexpectedMessage .clientIdentify other.kind)

def expectResponse (frame : Bytes) : Dialogue Ed25519SignatureBytes := do
  match ← decoded frame with
  | .clientAuthenticationResponse signature => pure signature
  | other => refuse (.unexpectedMessage .clientAuthenticationResponse other.kind)

def verifyAuthenticationSignature (v : Verifier) (user : UserId) (key : Ed25519PublicKeyBytes)
    (challenge : AuthenticationChallenge) (signature : Ed25519SignatureBytes) : Bool :=
  v.verifyStrict key (authenticationTranscript protocolVersion user key challenge) signature

/-- `DatabaseWorker::execute`. -/
def execute (job : Job) : Dialogue (Except EnrollmentError Registration) := do
  let taken : Admission ← query (Query.submit job)
  match taken with
  | .full => fail (.io ⟨.wouldBlock, "database queue full"⟩)
  | .stopped => fail (.io ⟨.brokenPipe, "database worker stopped"⟩)
  | .admitted =>
    let result : Option (Except EnrollmentError Registration) ← query Query.outcome
    match result with
    | none => fail (.io ⟨.brokenPipe, "database result unavailable"⟩)
    | some result => pure result

/-- `if matches!(error, ..) { send_protocol_error(..).await?; }`. -/
def tellIf (condition : Prop) [Decidable condition] (error : ProtocolError) : Dialogue Unit :=
  if condition then sendProtocolError error else pure ()

def enroll (job : Job) : Dialogue Registration := do
  match ← execute job with
  | .ok registration => pure registration
  | .error error => do
      tellIf (error = .identityKeyConflict) .identityKeyConflict
      tellIf (error = .enrollmentRequired) .authenticationFailed
      fail (.storage error)

/-- `ConnectionHub::register`. -/
def register (user : UserId) : Dialogue Session := do
  let inserted : Bool ← query (Query.activate user)
  if inserted = false then fail (.io ⟨.alreadyExists, "identity already has an active session"⟩)
  else do
    let id : UInt64 ← query Query.fetchAdd
    let _ : Unit ← query (Query.insert user id)
    pure ⟨user, id⟩

/-- `Drop` of a `ConnectionRegistration`. -/
def release (session : Session) : Dialogue Unit := do
  let _ : Unit ← query (Query.unregister session.user session.id)
  query (Query.deactivate session.user)

def accept (session : Session) : Dialogue (Option Session) := do
  match ← (send (.serverIdentifyAccepted session.user)).attempt with
  | .ok _ => pure (some session)
  | .error e => do
      release session
      fail e

def admission (job : Job) : Dialogue (Option Session) := do
  let _ ← enroll job
  match ← (register job.user).attempt with
  | .ok session => accept session
  | .error e => do
      sendProtocolError .authenticationFailed
      fail e

def challengeIdentity (v : Verifier) (job : Job) : Dialogue (Option Session) := do
  if v.fromBytes job.key = false then refuse .invalidPublicKey
  else do
    let drawn : Option AuthenticationChallenge ← query Query.generate
    match drawn with
    | none => fail .random
    | some challenge => do
        send (.serverAuthenticationChallenge challenge)
        match ← readHandshakeFrame "ClientAuthenticationResponse" with
        | none => pure none
        | some frame => do
            let signature ← expectResponse frame
            if verifyAuthenticationSignature v job.user job.key challenge signature = false then
              refuse .authenticationFailed
            else admission job

def authenticate (v : Verifier) : Dialogue (Option Session) := do
  match ← readHandshakeFrame "ClientHello" with
  | none => pure none
  | some frame => do
      expectHello frame
      match ← readHandshakeFrame "ClientIdentify" with
      | none => pure none
      | some frame => do
          let job ← expectIdentify frame
          challengeIdentity v job

end Definitions

/-- What a client has shown: its three frames, the challenge between them and what they say. -/
structure Evidence where
  hello : Bytes
  greeting : Bytes
  identify : Bytes
  job : Job
  challenge : AuthenticationChallenge
  dare : Bytes
  response : Bytes
  signature : Ed25519SignatureBytes

namespace Evidence

/-- The frames are the expected messages and the signature is one of the named key over the
challenge. -/
structure Valid (v : Verifier) (x : Evidence) : Prop where
  hello : decodeMessage ClientMessage x.hello = .ok (.clientHello protocolVersion)
  identify : decodeMessage ClientMessage x.identify =
    .ok (.clientIdentify x.job.user x.job.key x.job.enrollment)
  response : decodeMessage ClientMessage x.response = .ok (.clientAuthenticationResponse x.signature)
  signed : v.verifyStrict x.job.key (authenticationTranscript protocolVersion x.job.user x.job.key
    x.challenge) x.signature = true

def checked (x : Evidence) : Trace Answer :=
  [⟨.read, .frame x.hello⟩, ⟨.write x.greeting, .sent⟩, ⟨.read, .frame x.identify⟩,
    ⟨.generate, some x.challenge⟩, ⟨.write x.dare, .sent⟩, ⟨.read, .frame x.response⟩]

def submitted (x : Evidence) : Trace Answer := x.checked ++ [⟨.submit x.job, .admitted⟩]

def enrolled (x : Evidence) (result : Registration) : Trace Answer :=
  x.submitted ++ [⟨.outcome, some (.ok result)⟩]

def registered (x : Evidence) (result : Registration) (id : UInt64) : Trace Answer :=
  x.enrolled result ++
    [⟨.activate x.job.user, true⟩, ⟨.fetchAdd, id⟩, ⟨.insert x.job.user id, ()⟩]

end Evidence

section Histories

/-- The user whose registration a handshake holds after a history. -/
def hold (before : Option UserId) : ((query : Query) × Answer query) → Option UserId
  | ⟨.activate user, true⟩ => some user
  | ⟨.deactivate _, _⟩ => none
  | _ => before

def held (past : Trace Answer) : Option UserId := past.foldl hold none

@[simp]
theorem held_concat (past : Trace Answer) (event : (query : Query) × Answer query) :
    held (past ++ [event]) = hold (held past) event := by
  unfold held
  rw [List.foldl_append]
  rfl

def frames (past : Trace Answer) : List Bytes :=
  past.filterMap fun
    | ⟨.read, .frame bytes⟩ => some bytes
    | _ => none

def May (v : Verifier) (past : Trace Answer) : Query → Prop
  | .write bytes => ∀ user, decodeMessage RelayMessage bytes = .ok (.serverIdentifyAccepted user) →
      ∃ (x : Evidence) (result : Registration) (id : UInt64),
        x.Valid v ∧ x.job.user = user ∧ past = x.registered result id
  | .submit job => ∃ x : Evidence, x.Valid v ∧ x.job = job ∧ past = x.checked
  | .outcome => ∃ x : Evidence, x.Valid v ∧ past = x.submitted
  | .activate user => ∃ (x : Evidence) (result : Registration),
      x.Valid v ∧ x.job.user = user ∧ past = x.enrolled result
  | .deactivate user => held past = some user
  | _ => True

/-- A session that is yielded has been announced; without one nothing is held. -/
def Yielded (v : Verifier) (past : Trace Answer) : Option Session → Prop
  | some session => ∃ (x : Evidence) (result : Registration) (bytes : Bytes), x.Valid v ∧
      x.job.user = session.user ∧
      encodeMessage (.serverIdentifyAccepted session.user : RelayMessage) = .ok bytes ∧
      past = x.registered result session.id ++ [⟨.write bytes, .sent⟩]
  | none => held past = none

end Histories

variable {error : ProtocolError} {frame : Bytes}

section Scripts

variable {v : Verifier} {past : Trace Answer} {α : Type} {post : Trace Answer → α → Prop}
variable {message : RelayMessage} {result : Registration}

/-- A part of a handshake that ends with a value as `post` says, or with an error and nothing held. -/
def OrHoldsNothing (post : Trace Answer → α → Prop) (now : Trace Answer) :
    Except Failure α → Prop
  | .ok a => post now a
  | .error _ => held now = none

theorem may_write {bytes : Bytes} (encoded : encodeMessage message = .ok bytes)
    (other : ∀ user, message ≠ .serverIdentifyAccepted user) : May v past (.write bytes) := by
  intro user decoded
  exact absurd (eq_of_decodeMessage encoded decoded).symm (other user)

theorem always_readHandshakeFrame {expected : String} (free : held past = none) :
    Always (May v) (OrHoldsNothing fun now arrived =>
      match arrived with
      | some bytes => now = past ++ [⟨.read, .frame bytes⟩]
      | none => held now = none) (readHandshakeFrame expected) past := by
  refine always_query trivial fun arrival => ?_
  have still : held (past ++ [⟨.read, arrival⟩]) = none := (held_concat _ _).trans free
  cases arrival with
  | frame bytes => exact always_pure rfl
  | closed => exact always_pure still
  | timedOut => exact always_fail still
  | failed e => exact always_fail still

theorem always_writeFrame {bytes : Bytes} (permitted : May v past (.write bytes)) :
    Always (May v) (fun now r =>
      match r with
      | .ok _ => now = past ++ [⟨.write bytes, .sent⟩]
      | .error _ => held now = held past) (writeFrame bytes) past := by
  refine always_query permitted fun departure => ?_
  have still : held (past ++ [⟨.write bytes, departure⟩]) = held past := held_concat _ _
  cases departure with
  | sent => exact always_pure rfl
  | timedOut => exact always_fail still
  | failed e => exact always_fail still

theorem always_send
    (permitted : ∀ bytes, encodeMessage message = .ok bytes → May v past (.write bytes)) :
    Always (May v) (fun now r =>
      match r with
      | .ok _ => ∃ bytes, encodeMessage message = .ok bytes ∧ now = past ++ [⟨.write bytes, .sent⟩]
      | .error _ => held now = held past) (send message) past := by
  refine always_ofExcept (fun bytes result => ?_) fun e result => rfl
  have encoded := mapError_ok result
  refine (always_writeFrame (permitted bytes encoded)).mono fun now r written => ?_
  cases r with
  | ok _ => exact ⟨bytes, encoded, written⟩
  | error e => exact written

theorem always_sendProtocolError (free : held past = none) :
    Always (May v) (fun now _ => held now = none) (sendProtocolError error) past := by
  have permitted : ∀ bytes, encodeMessage (.protocolError none error : RelayMessage) = .ok bytes →
      May v past (.write bytes) := fun bytes encoded => may_write encoded fun _ => nofun
  refine (always_send permitted).mono fun now r sent => ?_
  cases r with
  | ok _ =>
    obtain ⟨bytes, -, rfl⟩ := sent
    exact (held_concat _ _).trans free
  | error e => exact sent.trans free

theorem always_refuse (free : held past = none) :
    Always (May v) (OrHoldsNothing post) (refuse error) past :=
  (always_sendProtocolError free).bind (fun _ _ free => always_fail free) fun _ _ free => free

theorem always_decoded {f : ClientMessage → Dialogue α} (free : held past = none)
    (rest : ∀ message, decodeMessage ClientMessage frame = .ok message →
      Always (May v) (OrHoldsNothing post) (f message) past) :
    Always (May v) (OrHoldsNothing post) (decoded frame >>= f) past :=
  always_ofExcept (fun message result => rest message (mapError_ok result)) fun _ _ => free

theorem always_expectHello (free : held past = none) :
    Always (May v) (OrHoldsNothing fun now _ =>
      decodeMessage ClientMessage frame = .ok (.clientHello protocolVersion) ∧
        ∃ greeting, now = past ++ [⟨.write greeting, .sent⟩]) (expectHello frame) past := by
  refine always_decoded free fun message read => ?_
  split
  · split
    · exact always_refuse free
    rename_i version same
    rw [not_not.mp same] at read
    have permitted : ∀ bytes, encodeMessage (.serverHello protocolVersion : RelayMessage) =
        .ok bytes → May v past (.write bytes) := fun bytes encoded =>
      may_write encoded fun _ => nofun
    refine (always_send permitted).mono fun now r sent => ?_
    cases r with
    | ok _ =>
      obtain ⟨bytes, -, reached⟩ := sent
      exact ⟨read, bytes, reached⟩
    | error e => exact sent.trans free
  · exact always_refuse free

theorem always_expectIdentify (free : held past = none) :
    Always (May v) (OrHoldsNothing fun now job => now = past ∧
      decodeMessage ClientMessage frame = .ok (.clientIdentify job.user job.key job.enrollment))
      (expectIdentify frame) past := by
  refine always_decoded free fun message read => ?_
  split
  · exact always_pure ⟨rfl, read⟩
  · exact always_refuse free

theorem always_expectResponse (free : held past = none) :
    Always (May v) (OrHoldsNothing fun now signature => now = past ∧
      decodeMessage ClientMessage frame = .ok (.clientAuthenticationResponse signature))
      (expectResponse frame) past := by
  refine always_decoded free fun message read => ?_
  split
  · exact always_pure ⟨rfl, read⟩
  · exact always_refuse free

variable {x : Evidence}

theorem always_execute (valid : x.Valid v) :
    Always (May v) (OrHoldsNothing fun now result =>
      match result with
      | .ok registration => now = x.enrolled registration
      | .error _ => held now = none) (execute x.job) x.checked := by
  refine always_query ⟨x, valid, rfl, rfl⟩ fun taken => ?_
  cases taken with
  | full => exact always_fail rfl
  | stopped => exact always_fail rfl
  | admitted =>
    refine always_query ⟨x, valid, rfl⟩ fun result => ?_
    rcases result with _ | ⟨error | registration⟩
    · exact always_fail rfl
    · exact always_pure rfl
    · exact always_pure rfl

theorem always_tellIf {condition : Prop} [Decidable condition] (free : held past = none) :
    Always (May v) (fun now _ => held now = none) (tellIf condition error) past := by
  unfold tellIf
  split
  · exact always_sendProtocolError free
  · exact always_pure free

theorem always_enroll (valid : x.Valid v) :
    Always (May v) (OrHoldsNothing fun now registration => now = x.enrolled registration)
      (enroll x.job) x.checked := by
  refine (always_execute valid).bind (fun result past reached => ?_) fun _ _ free => free
  cases result with
  | ok registration => exact always_pure reached
  | error error =>
    refine (always_tellIf reached).bind (fun _ past free => ?_) fun _ _ free => free
    exact (always_tellIf free).bind (fun _ _ free => always_fail free) fun _ _ free => free

theorem always_register (valid : x.Valid v) :
    Always (May v) (OrHoldsNothing fun now session => session.user = x.job.user ∧
      now = x.registered result session.id) (register x.job.user) (x.enrolled result) := by
  refine always_query ⟨x, result, valid, rfl, rfl⟩ fun inserted => ?_
  cases inserted with
  | false => exact always_fail rfl
  | true =>
    refine always_query trivial fun id => ?_
    exact always_query trivial fun _ => always_pure ⟨rfl, by simp [Evidence.registered]⟩

theorem always_release {session : Session} (holds : held past = some session.user) :
    Always (May v) (fun now _ => held now = none) (release session) past := by
  refine always_query trivial fun _ => ?_
  have still : held (past ++ [⟨.unregister session.user session.id, ()⟩]) = some session.user :=
    (held_concat _ _).trans holds
  exact ⟨still, fun _ => held_concat _ _⟩

theorem held_registered (x : Evidence) (result : Registration) (id : UInt64) :
    held (x.registered result id) = some x.job.user := rfl

theorem always_accept {session : Session} (valid : x.Valid v) (mine : session.user = x.job.user) :
    Always (May v) (OrHoldsNothing (Yielded v)) (accept session) (x.registered result session.id) := by
  have permitted : ∀ bytes, encodeMessage (.serverIdentifyAccepted session.user : RelayMessage) =
      .ok bytes → May v (x.registered result session.id) (.write bytes) := by
    intro bytes encoded user decoded
    obtain ⟨rfl⟩ := RelayMessage.serverIdentifyAccepted.inj (eq_of_decodeMessage encoded decoded)
    exact ⟨x, result, session.id, valid, mine.symm, rfl⟩
  refine always_attempt (always_send permitted) fun outcome past sent => ?_
  cases outcome with
  | ok _ =>
    obtain ⟨bytes, encoded, rfl⟩ := sent
    exact always_pure ⟨x, result, bytes, valid, mine.symm, encoded, rfl⟩
  | error e =>
    have holds : held past = some session.user := by
      rw [mine]
      exact sent.trans (held_registered x result session.id)
    exact (always_release holds).bind (fun _ _ free => always_fail free) fun _ _ free => free

theorem always_admission (valid : x.Valid v) :
    Always (May v) (OrHoldsNothing (Yielded v)) (admission x.job) x.checked := by
  refine (always_enroll valid).bind (fun result past reached => ?_) fun _ _ free => free
  obtain rfl := reached
  refine always_attempt (always_register valid) fun outcome past reached => ?_
  cases outcome with
  | ok session =>
    obtain ⟨mine, rfl⟩ := reached
    exact always_accept valid mine
  | error e =>
    exact (always_sendProtocolError reached).bind (fun _ _ free => always_fail free)
      fun _ _ free => free

theorem always_challengeIdentity {hello greeting identify : Bytes} {job : Job}
    (first : decodeMessage ClientMessage hello = .ok (.clientHello protocolVersion))
    (second : decodeMessage ClientMessage identify =
      .ok (.clientIdentify job.user job.key job.enrollment)) :
    Always (May v) (OrHoldsNothing (Yielded v)) (challengeIdentity v job)
      [⟨.read, .frame hello⟩, ⟨.write greeting, .sent⟩, ⟨.read, .frame identify⟩] := by
  unfold challengeIdentity
  split
  · exact always_refuse rfl
  refine always_query trivial fun drawn => ?_
  cases drawn with
  | none => exact always_fail rfl
  | some challenge =>
    have permitted : ∀ past bytes,
        encodeMessage (.serverAuthenticationChallenge challenge : RelayMessage) = .ok bytes →
          May v past (.write bytes) := fun _ _ encoded => may_write encoded fun _ => nofun
    refine (always_send (permitted _)).bind (fun _ past sent => ?_) fun _ _ same => same
    obtain ⟨dare, -, rfl⟩ := sent
    refine (always_readHandshakeFrame rfl).bind (fun arrived past reached => ?_)
      fun _ _ free => free
    cases arrived with
    | none => exact always_pure reached
    | some response =>
      obtain rfl : past = _ := reached
      refine (always_expectResponse rfl).bind (fun signature past read => ?_)
        fun _ _ free => free
      obtain ⟨rfl, third⟩ := read
      split
      · exact always_refuse rfl
      · rename_i signed
        exact always_admission (x := ⟨hello, greeting, identify, job, challenge, dare, response,
          signature⟩) ⟨first, second, third, Bool.not_eq_false _ ▸ signed⟩

theorem always_authenticate (v : Verifier) :
    Always (May v) (OrHoldsNothing (Yielded v)) (authenticate v) [] := by
  refine (always_readHandshakeFrame rfl).bind (fun arrived past reached => ?_) fun _ _ free => free
  cases arrived with
  | none => exact always_pure reached
  | some hello =>
    obtain rfl : past = _ := reached
    refine (always_expectHello rfl).bind (fun _ past greeted => ?_) fun _ _ free => free
    obtain ⟨first, greeting, rfl⟩ := greeted
    refine (always_readHandshakeFrame rfl).bind (fun arrived past reached => ?_)
      fun _ _ free => free
    cases arrived with
    | none => exact always_pure reached
    | some identify =>
      obtain rfl : past = _ := reached
      refine (always_expectIdentify rfl).bind (fun job past read => ?_) fun _ _ free => free
      obtain ⟨rfl, second⟩ := read
      exact always_challengeIdentity first second

end Scripts

end Grotto.Relay.Handshake
