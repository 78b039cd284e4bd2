/- GID: Grotto/Client/Calls
   digest: Storage calls that may fail, and the transaction guard around them. -/

import Grotto.Client.Tables

set_option autoImplicit false

namespace Grotto.Client.Calls

open Format.Varint (Bytes)
open Protocol.Records Protocol.Wire
open Base.Program Contacts Library Tables

inductive ProcessingFault
  | blocked | rejected
  deriving DecidableEq

/-- The errors the engine tells apart; `exhausted` ends a loop the model has bounded. -/
inductive Error
  | store (e : StoreError)
  | mls (e : MlsError)
  | processing (fault : ProcessingFault)
  | text (reason : String)
  | encode | decode | random | disconnected | exhausted
  deriving DecidableEq

/-- What the machine answers during one action: `fault n` says whether its `n`-th storage call
fails, `pageCount n` how many pages the database has then, `seed n` the library's randomness. -/
structure Surroundings (mls : Mls) where
  fault : Nat → Bool
  pageSize : Nat
  pageCount : Nat → Nat
  newDataLimit : Nat
  seed : Nat → mls.Seed

/-- The open database and the groups held in memory. Between actions the tables are what is
durable; `owner` marks an open transaction. -/
structure Session (mls : Mls) where
  store : Store mls
  groups : List (RoomId × mls.Group)
  owner : Bool
  poisoned : Bool
  calls : Nat

def opened {mls : Mls} (store : Store mls) : Session mls := ⟨store, [], false, false, 0⟩

abbrev Service (mls : Mls) := Local (Surroundings mls) (Session mls) Error

variable {mls : Mls}

/-- `lock()` and one statement on the connection. -/
def call : Service mls Unit := fun here s =>
  if s.poisoned then (.error (.store .lockPoisoned), s)
  else if here.fault s.calls then (.error (.store .database), { s with calls := s.calls + 1 })
  else (.ok (), { s with calls := s.calls + 1 })

def query {α : Type} (read : Store mls → α) : Service mls α := do
  call
  let s ← Local.get
  pure (read s.store)

def update (write : Store mls → Store mls) : Service mls Unit := do
  call
  Local.modify fun s => { s with store := write s.store }

def execute (write : Store mls → Except StoreError (Store mls)) : Service mls Unit := do
  call
  let s ← Local.get
  match write s.store with
  | .ok store => Local.modify fun s => { s with store := store }
  | .error e => Local.fail (.store e)

def liftStore {α : Type} (r : Except StoreError α) : Service mls α :=
  Local.ofExcept (r.mapError Error.store)

/-- `encode_message(..)?`. -/
def encoded {α : Type} [Serde α] (message : α) : Service mls Bytes :=
  Local.ofExcept ((encodeMessage message).mapError fun _ => Error.encode)

/-- `decode_message(..)?`. -/
def decoded (α : Type) [Serde α] (bytes : Bytes) : Service mls α :=
  Local.ofExcept ((decodeMessage α bytes).mapError fun _ => Error.decode)

def require {α : Type} (e : Error) : Option α → Service mls α
  | some a => pure a
  | none => Local.fail e

def onlyIf (condition : Prop) [Decidable condition] (m : Service mls Unit) : Service mls Unit :=
  if condition then m else pure ()

/-- `map_err(|_| e)`. -/
def orFail {α : Type} (e : Error) (m : Service mls α) : Service mls α := do
  match ← m.attempt with
  | .ok a => pure a
  | .error _ => Local.fail e

def saturatingAdd (a b : Nat) : Nat := min (a + b) (2 ^ 64 - 1)
def saturatingMul (a b : Nat) : Nat := min (a * b) (2 ^ 64 - 1)

def admitNewData (bytes : Nat) : Service mls Unit := do
  call
  let here ← Local.surroundings
  let s ← Local.get
  if saturatingAdd (saturatingAdd (saturatingMul (here.pageCount s.calls) here.pageSize)
      (saturatingMul bytes 3)) (64 * 1024) > here.newDataLimit then Local.fail (.store .quota)
  else pure ()

/-- `BEGIN IMMEDIATE`; transactions do not nest. -/
def begin : Service mls Unit := do
  let s ← Local.get
  if s.poisoned then Local.fail (.store .lockPoisoned)
  else if s.owner then Local.fail (.store (.invalidData "nested client transaction"))
  else do
    call
    Local.modify fun s => { s with owner := true }

/-- `COMMIT`. -/
def commit : Service mls Unit := do
  call
  Local.modify fun s => { s with owner := false }

/-- The guard dropped without a commit: the tables are what they were at `BEGIN`, and a failing
`ROLLBACK` closes the connection to all further work. -/
def rollback (here : Surroundings mls) (before : Store mls) (s : Session mls) : Session mls :=
  if s.poisoned then { s with store := before }
  else if here.fault s.calls then { s with store := before, poisoned := true, calls := s.calls + 1 }
  else { s with store := before, owner := false, calls := s.calls + 1 }

/-- `store.transaction()?`, the body and `commit()`. -/
def transaction {α : Type} (body : Service mls α) : Service mls α := fun here s =>
  match begin here s with
  | (.error e, t) => (.error e, t)
  | (.ok _, t) =>
    match (do let value ← body; commit; pure value : Service mls α) here t with
    | (.ok value, u) => (.ok value, u)
    | (.error e, u) => (.error e, rollback here s.store u)

/-- `MlsSession::atomic`: a failed operation also drops every cached group. -/
def atomic {α : Type} (operation : Service mls α) : Service mls α := fun here s =>
  match begin here s with
  | (.error e, t) => (.error e, t)
  | (.ok _, t) =>
    match (do let value ← operation; commit; pure value : Service mls α) here t with
    | (.ok value, u) => (.ok value, u)
    | (.error e, u) => (.error e, { rollback here s.store u with groups := [] })

end Grotto.Client.Calls
