/- GID: Grotto/Network/Model
   digest: Clients and their relay, with requests and answers lost, repeated and delayed. -/

import Grotto.Client.Machine
import Grotto.Relay.Deliver

set_option autoImplicit false

namespace Grotto.Network.Model

open Protocol.Records Protocol.Wire Protocol.Transcripts
open Client.Library Client.Delivery Client.Frames Client.Machine
open Relay.Storage (Db)
open Relay.Deliver (deliver)

structure Deployment (mls : Mls) where
  sha256 : Hash
  engine : UserId → Option (Engine mls)
  named : ∀ user e, engine user = some e → e.user = user
  hashes : ∀ user e, engine user = some e → e.crypto.sha256 = sha256

/-- Clients, relay, the identifiers drawn, and everything that was put on a wire: it may arrive at
any time, again or never. -/
structure System (mls : Mls) where
  clients : UserId → Process mls
  relay : Db
  drawn : List (UserId × MessageId)
  sent : List (UserId × MessageId × Request)
  replies : List (UserId × (MessageId × Request) × Response)

variable {mls : Mls}

def System.start (mls : Mls) : System mls := ⟨fun _ => Process.off mls, Db.empty, [], [], []⟩

inductive Action (mls : Mls)
  | move (user : UserId) (move : Move mls)
  | post (user : UserId)
  | execute (here : Relay.Storage.Surroundings) (user : UserId) (id : MessageId) (request : Request)
  | answer (user : UserId) (response : Response)

namespace System

/-- `MessageId::new` never repeats. -/
def isNew (s : System mls) (id : MessageId) : Bool :=
  (s.drawn.all fun drawn => decide (drawn.2 ≠ id)) && (s.sent.all fun query => decide (query.2.1 ≠ id)) &&
    !s.relay.hasEvent id

/-- Answers are moves of the wire, and a drawn identifier is a new one. -/
def permits (s : System mls) : Move mls → Bool
  | .draw (some id) => s.isNew id
  | .reply (some _) => false
  | _ => true

def drawnBy (user : UserId) : Move mls → List (UserId × MessageId)
  | .draw (some id) => [(user, id)]
  | _ => []

/-- A client's requests are those it sent. Other users ask for anything, under any identifier but
one that a client drew and that no event has made known. -/
def mayExecute (d : Deployment mls) (s : System mls) (user : UserId) (id : MessageId)
    (request : Request) : Bool :=
  if (d.engine user).isSome then decide ((user, id, request) ∈ s.sent)
  else (s.drawn.all fun drawn => decide (drawn.2 ≠ id)) || s.relay.hasEvent id

/-- An overloaded session answers for the relay, and so does one whose call failed. -/
def mayAnswer (s : System mls) (user : UserId) (query : MessageId × Request) (response : Response) :
    Bool :=
  decide (response = .rejected .overloaded ∨ response = .rejected .internal ∨
    (user, query, response) ∈ s.replies)

def setClient (s : System mls) (user : UserId) (c : Process mls) : System mls :=
  { s with clients := Function.update s.clients user c }

def step (d : Deployment mls) (s : System mls) : Action mls → Option (System mls)
  | .move user move =>
    match d.engine user with
    | none => none
    | some e =>
      if s.permits move then
        ((s.clients user).step e move).map fun c =>
          { s.setClient user c with drawn := drawnBy user move ++ s.drawn }
      else none
  | .post user =>
    match d.engine user, (s.clients user).program with
    | some _, .ask query _ => some { s with sent := (user, query) :: s.sent }
    | _, _ => none
  | .execute here user id request =>
    if s.mayExecute d user id request then
      match deliver d.sha256 here s.relay user id request with
      | (.ok response, db) =>
        some { s with relay := db, replies := (user, (id, request), response) :: s.replies }
      | (.error _, db) => some { s with relay := db }
    else none
  | .answer user response =>
    match d.engine user, (s.clients user).program with
    | some e, .ask query _ =>
      if s.mayAnswer user query response then
        ((s.clients user).step e (.reply (some response))).map (s.setClient user)
      else none
    | _, _ => none

end System

/-- The content-derived identifier of a receipt is no drawn one and names nothing else its client
has sent. -/
def ReceiptsApart (d : Deployment mls) (s : System mls) : Prop :=
  ∀ user e, d.engine user = some e → ∀ id events welcomes,
    Carries (s.clients user).store id (.acknowledge events welcomes) →
    (user, id) ∉ s.drawn ∧ ∀ request, (user, id, request) ∈ s.sent → request.isRead = false →
      request = .acknowledge events welcomes

inductive Run (d : Deployment mls) : System mls → List (System mls) → Prop
  | start : Run d (System.start mls) []
  | step {s t : System mls} {past : List (System mls)} {action : Action mls} (before : Run d s past)
      (taken : s.step d action = some t) (apart : ReceiptsApart d t) : Run d t (s :: past)

inductive Steps (d : Deployment mls) (s : System mls) : System mls → Prop
  | client {user : UserId} {e : Engine mls} {move : Move mls} {c : Process mls}
      (runs : d.engine user = some e) (taken : (s.clients user).step e move = some c)
      (new : ∀ id, move = .draw (some id) → s.isNew id = true)
      (answered : ∀ response, move = .reply (some response) →
        ∃ query rest, (s.clients user).program = .ask query rest ∧
          s.mayAnswer user query response = true) :
      Steps d s { s.setClient user c with drawn := System.drawnBy user move ++ s.drawn }
  | post {user : UserId} {e : Engine mls} {query : MessageId × Request}
      {rest : Option Response → Program mls Unit} (runs : d.engine user = some e)
      (asking : (s.clients user).program = .ask query rest) :
      Steps d s { s with sent := (user, query) :: s.sent }
  | fail {here : Relay.Storage.Surroundings} {user : UserId} {id : MessageId} {request : Request}
      {error : Relay.Storage.StorageError} (may : s.mayExecute d user id request = true)
      (failed : (deliver d.sha256 here s.relay user id request).1 = .error error) :
      Steps d s { s with relay := (deliver d.sha256 here s.relay user id request).2 }
  | execute {here : Relay.Storage.Surroundings} {user : UserId} {id : MessageId} {request : Request}
      {response : Response} (may : s.mayExecute d user id request = true)
      (answer : (deliver d.sha256 here s.relay user id request).1 = .ok response) :
      Steps d s { s with
        relay := (deliver d.sha256 here s.relay user id request).2
        replies := (user, (id, request), response) :: s.replies }

variable {d : Deployment mls} {s t : System mls} {action : Action mls}

theorem step_steps (taken : s.step d action = some t) : Steps d s t := by
  cases action with
  | move user move =>
    dsimp only [System.step] at taken
    split at taken
    · cases taken
    rename_i e runs
    split at taken
    · rename_i permitted
      obtain ⟨c, moved, rfl⟩ := Option.map_eq_some_iff.mp taken
      refine .client runs moved ?_ ?_
      · rintro id rfl
        exact permitted
      · rintro response rfl
        cases permitted
    · cases taken
  | post user =>
    dsimp only [System.step] at taken
    split at taken
    · rename_i e query rest runs asking
      cases taken
      exact .post runs asking
    · cases taken
  | execute here user id request =>
    dsimp only [System.step] at taken
    split at taken
    · rename_i may
      split at taken
      · rename_i response db delivered
        cases taken
        have done : Steps d s _ := .execute may (congrArg Prod.fst delivered)
        rw [delivered] at done
        exact done
      · rename_i error db delivered
        cases taken
        have done : Steps d s _ := .fail may (congrArg Prod.fst delivered)
        rw [delivered] at done
        exact done
    · cases taken
  | answer user response =>
    dsimp only [System.step] at taken
    split at taken
    · rename_i e query rest runs asking
      split at taken
      · rename_i may
        obtain ⟨c, moved, rfl⟩ := Option.map_eq_some_iff.mp taken
        refine .client runs moved nofun ?_
        rintro given same
        cases same
        exact ⟨query, rest, asking, may⟩
      · cases taken
    · cases taken

section Scenes

variable (d : Deployment mls) (users : List UserId) {here : Client.Calls.Surroundings mls}
variable {there : Relay.Storage.Surroundings}

/-- Whether the receipts in the outbox of a user are under identifiers of their own. -/
def receiptsHold (s : System mls) (user : UserId) : Bool :=
  (s.clients user).store.outbox.all fun row =>
    match decodeMessage ClientMessage row.message with
    | .ok (.delivery id (.acknowledge events welcomes)) =>
      decide ((user, id) ∉ s.drawn) && s.sent.all fun query =>
        query.2.2.isRead || decide (query.1 = user → query.2.1 = id →
          query.2.2 = .acknowledge events welcomes)
    | .ok (.delivery _ _) => true
    | _ => false

abbrev Scene (mls : Mls) := System mls × List (System mls)

def Scene.start (mls : Mls) : Scene mls := (System.start mls, [])

def Scene.then (scene : Scene mls) (action : Action mls) : Scene mls :=
  match scene.1.step d action with
  | none => scene
  | some t => if users.all (receiptsHold t) then (t, scene.1 :: scene.2) else scene

/-- A user's program carried on, with identifiers in the order given. Each request goes to the
relay, unless the list says how its session answers instead. -/
def Scene.carry (here : Client.Calls.Surroundings mls) (there : Relay.Storage.Surroundings)
    (user : UserId) : Nat → List MessageId → List (Option Response) → Scene mls → Scene mls
  | 0, _, _, scene => scene
  | fuel + 1, ids, sessions, scene =>
    match (scene.1.clients user).program with
    | .done _ => scene
    | .act _ _ =>
      Scene.carry here there user fuel ids sessions (scene.then d users (.move user (.act here)))
    | .draw _ =>
      Scene.carry here there user fuel ids.tail sessions
        (scene.then d users (.move user (.draw ids.head?)))
    | .ask query _ =>
      let posted := scene.then d users (.post user)
      match sessions.head?.join with
      | some response =>
        Scene.carry here there user fuel ids sessions.tail
          (posted.then d users (.answer user response))
      | none =>
        let executed := posted.then d users (.execute there user query.1 query.2)
        let response := (deliver d.sha256 there posted.1.relay user query.1 query.2).1
        Scene.carry here there user fuel ids sessions.tail
          (executed.then d users (.answer user (response.toOption.getD (.rejected .internal))))

def Scene.play (here : Client.Calls.Surroundings mls) (there : Relay.Storage.Surroundings)
    (user : UserId) (move : Move mls) (ids : List MessageId) (sessions : List (Option Response))
    (scene : Scene mls) : Scene mls :=
  Scene.carry d users here there user 200 ids sessions (scene.then d users (.move user move))

variable {d users}

theorem receiptsApart_of_hold {s : System mls}
    (complete : ∀ user e, d.engine user = some e → user ∈ users)
    (hold : users.all (receiptsHold s) = true) : ReceiptsApart d s := by
  rintro user e runs id events welcomes ⟨row, present, rfl, encodes⟩
  have checked := List.all_eq_true.mp (List.all_eq_true.mp hold user (complete user e runs)) row present
  split at checked
  · rename_i id events' welcomes' decodes
    cases eq_of_decodeMessage encodes decodes
    obtain ⟨undrawn, unsent⟩ := Bool.and_eq_true_iff.mp checked
    refine ⟨of_decide_eq_true undrawn, fun request sent durable => ?_⟩
    have tested := List.all_eq_true.mp unsent _ sent
    rw [durable, Bool.false_or] at tested
    exact of_decide_eq_true tested rfl rfl
  · rename_i id request other decodes
    cases eq_of_decodeMessage encodes decodes
    exact (other _ _ rfl).elim
  · cases checked

theorem Run.then (complete : ∀ user e, d.engine user = some e → user ∈ users) {scene : Scene mls}
    (run : Run d scene.1 scene.2) (action : Action mls) :
    Run d (scene.then d users action).1 (scene.then d users action).2 := by
  unfold Scene.then
  split
  · exact run
  rename_i t taken
  split
  · rename_i hold
    exact .step run taken (receiptsApart_of_hold complete hold)
  · exact run

theorem Run.carry (complete : ∀ user e, d.engine user = some e → user ∈ users) {user : UserId}
    (fuel : Nat) (ids : List MessageId) (sessions : List (Option Response)) {scene : Scene mls}
    (run : Run d scene.1 scene.2) :
    Run d (scene.carry d users here there user fuel ids sessions).1
      (scene.carry d users here there user fuel ids sessions).2 := by
  induction fuel generalizing ids sessions scene with
  | zero => exact run
  | succ fuel ih =>
    unfold Scene.carry
    split
    · exact run
    · exact ih _ _ (run.then complete _)
    · exact ih _ _ (run.then complete _)
    · split
      · exact ih _ _ ((run.then complete _).then complete _)
      · exact ih _ _ (((run.then complete _).then complete _).then complete _)

theorem Run.play (complete : ∀ user e, d.engine user = some e → user ∈ users) {user : UserId}
    (move : Move mls) (ids : List MessageId) (sessions : List (Option Response)) {scene : Scene mls}
    (run : Run d scene.1 scene.2) :
    Run d (scene.play d users here there user move ids sessions).1
      (scene.play d users here there user move ids sessions).2 :=
  (run.then complete _).carry complete _ _ _

def among (users : List UserId) : Deployment Client.Cleartext.mls where
  sha256 := trailingBytes
  engine user := if user ∈ users then some (clearEngine user) else none
  named user e runs := by
    split at runs
    · cases runs
      rfl
    · cases runs
  hashes user e runs := by
    split at runs
    · cases runs
      rfl
    · cases runs

theorem among_listed (users : List UserId) (user : UserId) (e : Engine Client.Cleartext.mls)
    (runs : (among users).engine user = some e) : user ∈ users := by
  dsimp only [among] at runs
  split at runs
  · assumption
  · cases runs

def Scene.turn (users : List UserId) (user : UserId) (move : Move Client.Cleartext.mls)
    (ids : List MessageId) (sessions : List (Option Response)) (scene : Scene Client.Cleartext.mls) :
    Scene Client.Cleartext.mls :=
  scene.play (among users) users calm Relay.Deliver.idle user move ids sessions

theorem Run.turn {users : List UserId} {scene : Scene Client.Cleartext.mls}
    (run : Run (among users) scene.1 scene.2) (user : UserId) (move : Move Client.Cleartext.mls)
    (ids : List MessageId) (sessions : List (Option Response)) :
    Run (among users) (scene.turn users user move ids sessions).1
      (scene.turn users user move ids sessions).2 :=
  run.play (among_listed users) move ids sessions

def soleRoom : RoomId := sampleRoom 0x22

def settled (users : List UserId) : Scene Client.Cleartext.mls :=
  ((Scene.start _).turn users (sampleUser 1) (.start calm) [] []
    |>.turn users (sampleUser 1) (.command (.createRoom "a")) [sampleId 1] []
    |>.turn users (sampleUser 1) (.drive 9) [sampleId 2, sampleId 3] [])

theorem run_settled (users : List UserId) : Run (among users) (settled users).1 (settled users).2 :=
  (((Run.start : Run (among users) (Scene.start _).1 (Scene.start _).2).turn _ _ _ _).turn _ _ _
    _).turn _ _ _ _

def acquainted (users : List UserId) : Scene Client.Cleartext.mls :=
  (settled users).turn users (sampleUser 1) (.command (.contactImport
    (clearEngine (sampleUser 2)).ownCard.encode
    ((clearEngine (sampleUser 2)).ownCard.fingerprint (clearEngine (sampleUser 1)).crypto))) [] []

theorem run_acquainted (users : List UserId) :
    Run (among users) (acquainted users).1 (acquainted users).2 :=
  (run_settled users).turn _ _ _ _

def outcome (c : Process mls) : Option (Except Client.Calls.Error Unit) :=
  match c.program with
  | .done result => some result
  | _ => none

end Scenes

end Grotto.Network.Model
