/- GID: Grotto/Network/Live
   digest: A connected client's event loop, its session, and the notifications between them. -/

import Grotto.Client.Machine
import Grotto.Client.Passes
import Grotto.Relay.Deliver
import Grotto.Relay.Hub

set_option autoImplicit false

namespace Grotto.Network.Live

open Protocol.Records
open Client.Library Client.Delivery Client.Machine Client.Passes
open Relay.Storage (Db)
open Relay.Deliver (deliver)
open Relay.Hub

/-- Where the client is in `run`: without a connection, in its idle loop, in a command, in a drive,
or in a drive that waits in `Wire::request`. -/
inductive Phase
  | away | idle | commanding | driving | awaiting
  deriving DecidableEq

/-- An answer a session is about to write; an accepted append is announced first. -/
structure Reply where
  id : MessageId
  response : Response
  announces : Bool
  deriving DecidableEq

/-- A client, its session and the relay. The wires and the channels of both sides are in order:
`upstream` goes to the session, `downstream` to the client. -/
structure Line (mls : Mls) where
  relay : Db
  hub : ConnectionHub
  /-- Appends of other sessions that are accepted and not yet announced. -/
  owed : Nat
  connection : UInt64
  session : Option Reply
  upstream : List (MessageId × Request)
  downstream : List RelayMessage
  client : Process mls
  phase : Phase
  /-- How far the client has read the index in its current pass. -/
  pass : Reach
  /-- The head each room had in the last index page that listed it. -/
  fetched : RoomId → Nat
  /-- The relay when the client last took a notification from its channel. -/
  noticed : Option Db

inductive Action (mls : Mls)
  | handle (here : Relay.Storage.Surroundings)
  | refuse
  | announce
  | respond
  | forward
  | other (here : Relay.Storage.Surroundings) (user : UserId) (id : MessageId) (request : Request)
  | otherAnnounce
  | register (user : UserId)
  | unregister (user : UserId) (id : UInt64)
  | drain (user : UserId) (id : UInt64)
  | hangup
  | connect (fuel : Nat)
  | offline (move : Move mls)
  | tick (fuel : Nat)
  | command (order : UserCommand)
  | resume (fuel : Nat)
  | act (here : Client.Calls.Surroundings mls)
  | draw (id : Option MessageId)
  | write
  | read (fuel : Nat)
  | fail
  | finish
  | leave

variable {mls : Mls}

def isAccepted : Response → Bool
  | .appendAccepted _ => true
  | _ => false

def answerOf : Except Relay.Storage.StorageError Response → Response
  | .ok response => response
  | .error _ => .rejected .internal

def take (fetched : RoomId → Nat) (query : MessageId × Request) (response : Response) : RoomId → Nat :=
  match query.2, response with
  | .syncIndex _, .syncIndex rooms _ => fun room =>
    match rooms.find? fun h => h.room = room with
    | some h => h.sequence.toNat
    | none => fetched room
  | _, _ => fetched

def isOffline : Move mls → Bool
  | .reply (some _) => false
  | _ => true

namespace Line

def start (mls : Mls) : Line mls where
  relay := Db.empty
  hub := {}
  owed := 0
  connection := 0
  session := none
  upstream := []
  downstream := []
  client := Process.off mls
  phase := .away
  pass := ⊥
  fetched := fun _ => 0
  noticed := none

section Step

variable (e : Engine mls) (s : Line mls)

def drive (fuel : Nat) (s : Line mls) : Option (Line mls) :=
  (s.client.step e (.drive fuel)).map fun client => { s with client, phase := .driving }

def moves (move : Move mls) : Option (Line mls) :=
  (s.client.step e move).map fun client => { s with client }

/-- `Wire::request` fails. -/
def failing : Option (Line mls) :=
  (s.client.step e (.reply none)).map fun client => { s with client, phase := .driving }

/-- What `Wire::request` does with the next message, given its own request. -/
def receive (query : MessageId × Request) : RelayMessage → Option (Line mls)
  | .deliveryChanged => some { s with noticed := some s.relay }
  | .delivery id response =>
    if id = query.1 then
      (s.client.step e (.reply (some response))).map fun client =>
        { s with
          client
          phase := .driving
          pass := learn s.pass query response
          fetched := take s.fetched query response }
    else s.failing e
  | _ => s.failing e

def awaited : Option (MessageId × Request) :=
  match s.phase, s.client.program with
  | .awaiting, .ask query _ => some query
  | _, _ => none

def read (fuel : Nat) : Option (Line mls) :=
  match s.phase, s.awaited, s.downstream with
  | .idle, _, .deliveryChanged :: rest =>
    drive e fuel { s with downstream := rest, noticed := some s.relay }
  | .idle, _, _ :: _ => some { s with phase := .away }
  | .awaiting, some query, message :: rest => receive e { s with downstream := rest } query message
  | _, _, _ => none

def finish : Option (Line mls) :=
  match s.phase, s.client.program with
  | .driving, .done (.ok _) => some { s with phase := .idle }
  | .driving, .done (.error _) => some { s with phase := .away }
  | _, _ => none

def executed (here : Relay.Storage.Surroundings) (id : MessageId) (request : Request) : Line mls :=
  let delivered := deliver e.crypto.sha256 here s.relay e.user id request
  let response := answerOf delivered.1
  { s with
    relay := delivered.2
    upstream := s.upstream.tail
    session := some ⟨id, response, isAccepted response⟩ }

def handle (here : Relay.Storage.Surroundings) : Option (Line mls) :=
  match s.session, s.upstream with
  | none, (id, request) :: _ => some (s.executed e here id request)
  | _, _ => none

def refuse : Option (Line mls) :=
  match s.session, s.upstream with
  | none, (id, _) :: rest =>
    some { s with upstream := rest, session := some ⟨id, .rejected .overloaded, false⟩ }
  | _, _ => none

def announce : Option (Line mls) :=
  match s.session with
  | some ⟨id, response, true⟩ =>
    some { s with hub := s.hub.announce, session := some ⟨id, response, false⟩ }
  | _ => none

def respond : Option (Line mls) :=
  match s.session with
  | some ⟨id, response, false⟩ =>
    some { s with session := none, downstream := s.downstream ++ [.delivery id response] }
  | _ => none

def forward : Option (Line mls) :=
  match s.session, s.hub.channel e.user s.connection with
  | none, some ⟨message :: _, _⟩ =>
    some { s with
      hub := s.hub.onChannel e.user s.connection fun channel =>
        { channel with queue := channel.queue.tail }
      downstream := s.downstream ++ [message] }
  | _, _ => none

def other (here : Relay.Storage.Surroundings) (user : UserId) (id : MessageId) (request : Request) :
    Option (Line mls) :=
  if user = e.user then none
  else
    let delivered := deliver e.crypto.sha256 here s.relay user id request
    some { s with
      relay := delivered.2
      owed := if isAccepted (answerOf delivered.1) then s.owed + 1 else s.owed }

def otherAnnounce : Option (Line mls) :=
  if s.owed = 0 then none else some { s with hub := s.hub.announce, owed := s.owed - 1 }

def hangup : Option (Line mls) :=
  if s.phase = .away ∧ (s.session.all fun reply => !reply.announces) then
    some { s with
      hub := (s.hub.unregister e.user s.connection).deactivate e.user
      session := none
      upstream := [] }
  else none

/-- The client registers and starts the first drive of `run`. -/
def connect (fuel : Nat) : Option (Line mls) :=
  match s.phase, s.hub.activate e.user with
  | .away, (true, hub) =>
    drive e fuel { s with
      hub := (hub.register e.user).2
      connection := (hub.register e.user).1
      session := none
      upstream := []
      downstream := [] }
  | _, _ => none

def onHub (user : UserId) (hub : ConnectionHub) : Option (Line mls) :=
  if user = e.user then none else some { s with hub }

def step : Action mls → Option (Line mls)
  | .handle here => s.handle e here
  | .refuse => s.refuse
  | .announce => s.announce
  | .respond => s.respond
  | .forward => s.forward e
  | .other here user id request => s.other e here user id request
  | .otherAnnounce => s.otherAnnounce
  | .register user =>
    match s.hub.activate user with
    | (true, hub) => s.onHub e user (hub.register user).2
    | (false, _) => none
  | .unregister user id => s.onHub e user ((s.hub.unregister user id).deactivate user)
  | .drain user id =>
    s.onHub e user (s.hub.onChannel user id fun channel =>
      { channel with queue := channel.queue.tail })
  | .hangup => s.hangup e
  | .connect fuel => s.connect e fuel
  | .offline move => if s.phase = .away ∧ isOffline move then s.moves e move else none
  | .tick fuel => if s.phase = .idle then s.drive e fuel else none
  | .command order =>
    if s.phase = .idle then
      (s.client.step e (.command order)).map fun client => { s with client, phase := .commanding }
    else none
  | .resume fuel => if s.phase = .commanding then s.drive e fuel else none
  | .act here => if s.phase = .commanding ∨ s.phase = .driving then s.moves e (.act here) else none
  | .draw id => if s.phase = .commanding ∨ s.phase = .driving then s.moves e (.draw id) else none
  | .write =>
    match s.phase, s.client.program with
    | .driving, .ask query _ =>
      some { s with
        upstream := s.upstream ++ [query]
        phase := .awaiting
        pass := if isEarly query.2 then ⊥ else s.pass }
    | _, _ => none
  | .read fuel => s.read e fuel
  | .fail => if s.phase = .awaiting then s.failing e else none
  | .finish => s.finish
  | .leave => if s.phase = .away then none else some { s with phase := .away }

end Step

end Line

section Inversion

variable {e : Engine mls} {s : Line mls} {c d : Process mls}

theorem drive_taken {fuel : Nat} (taken : c.step e (.drive fuel) = some d) :
    d.program = driveInner e fuel := by
  cases step_takes taken
  rfl

theorem act_taken {here : Client.Calls.Surroundings mls} (taken : c.step e (.act here) = some d) :
    ∃ next rest, c.program = .act next rest ∧ d.program = rest here c.session := by
  cases step_takes taken with
  | act acting => exact ⟨_, _, acting, rfl⟩

theorem draw_taken {id : Option MessageId} (taken : c.step e (.draw id) = some d) :
    ∃ rest, c.program = .draw rest ∧ d.program = rest id := by
  cases step_takes taken with
  | draw drawing => exact ⟨_, drawing, rfl⟩

theorem reply_taken {response : Option Response} (taken : c.step e (.reply response) = some d) :
    ∃ query rest, c.program = .ask query rest ∧ d.program = rest response := by
  cases step_takes taken with
  | answered asking | lost asking => exact ⟨_, _, asking, rfl⟩

theorem awaited_of_phase (other : s.phase ≠ .awaiting) : s.awaited = none := by
  unfold Line.awaited
  split
  · rename_i waiting _
    exact absurd waiting other
  · rfl

theorem awaited_ask {query : MessageId × Request} (waits : s.awaited = some query) :
    s.phase = .awaiting ∧ ∃ rest, s.client.program = .ask query rest := by
  unfold Line.awaited at waits
  split at waits
  · rename_i rest waiting asking
    cases waits
    exact ⟨waiting, rest, asking⟩
  · cases waits

end Inversion

inductive Reaches (e : Engine mls) (may : Line mls → Action mls → Prop) : Line mls → Prop
  | start : Reaches e may (Line.start mls)
  | step {s t : Line mls} {action : Action mls} (before : Reaches e may s)
      (taken : s.step e action = some t) (allowed : may s action) : Reaches e may t

end Grotto.Network.Live
