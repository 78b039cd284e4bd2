/- GID: Grotto/Client/Machine
   digest: A client process that runs commands and drives, loses answers, crashes and restarts. -/

import Grotto.Client.Cleartext
import Grotto.Client.Conduct

set_option autoImplicit false

namespace Grotto.Client.Machine

open Format.Postcard (Octets)
open Protocol Protocol.Records
open Library Tables Calls Effects
open Delivery Changes Actions
open Consistency Conduct

/-- A client: its database, the program it is in, and what it was told and answered so far. -/
structure Process (mls : Mls) where
  session : Session mls
  running : Bool
  program : Program mls Unit
  orders : List UserCommand
  answers : List ((MessageId × Request) × Response)

variable {mls : Mls}

def Process.off (mls : Mls) : Process mls := ⟨opened (Store.empty mls), false, .done (.ok ()), [], []⟩

inductive Move (mls : Mls)
  | start (here : Surroundings mls)
  | command (order : UserCommand)
  | drive (fuel : Nat)
  | act (here : Surroundings mls)
  | draw (id : Option MessageId)
  | reply (response : Option Response)
  | reconnect
  | crash

namespace Process

def isIdle (c : Process mls) : Bool :=
  match c.program with
  | .done _ => c.running
  | _ => false

/-- Whatever program has ended, the next one starts; after a failed drive the process first
reconnects or ends, which are moves of their own. -/
def step (e : Engine mls) (c : Process mls) : Move mls → Option (Process mls)
  | .start here =>
    if c.running then none
    else
      match startUp e here (opened c.session.store) with
      | (.ok _, session) => some { c with session, running := true, program := .done (.ok ()) }
      | (.error _, session) => some { c with session, program := .done (.ok ()) }
  | .command order =>
    if c.isIdle then some { c with program := command e order, orders := order :: c.orders }
    else none
  | .drive fuel => if c.isIdle then some { c with program := driveInner e fuel } else none
  | .act here =>
    match c.program with
    | .act next rest =>
      some { c with session := next here c.session, program := rest here c.session }
    | _ => none
  | .draw id =>
    match c.program with
    | .draw rest => some { c with program := rest id }
    | _ => none
  | .reply (some response) =>
    match c.program with
    | .ask query rest =>
      some { c with
        program := rest (some response)
        answers := (query, response) :: c.answers }
    | _ => none
  | .reply none =>
    match c.program with
    | .ask _ rest => some { c with program := rest none }
    | _ => none
  | .reconnect =>
    if c.isIdle then
      some { c with session := { c.session with groups := [] }, program := .done (.ok ()) }
    else none
  | .crash =>
    some { c with session := opened c.session.store, running := false, program := .done (.ok ()) }

def run (e : Engine mls) (c : Process mls) (moves : List (Move mls)) : Option (Process mls) :=
  moves.foldlM (step e) c

def store (c : Process mls) : Store mls := c.session.store

def asked (c : Process mls) (order : UserCommand) : Prop := order ∈ c.orders

def known (c : Process mls) (query : MessageId × Request) (response : Response) : Prop :=
  (query, response) ∈ c.answers

end Process

inductive Takes (e : Engine mls) (c : Process mls) : Move mls → Process mls → Prop
  | started {here : Surroundings mls} {session : Session mls} (off : c.running = false)
      (ends : startUp e here (opened c.session.store) = (.ok (), session)) :
      Takes e c (.start here) { c with session, running := true, program := .done (.ok ()) }
  | refused {here : Surroundings mls} {error : Error} {session : Session mls} (off : c.running = false)
      (ends : startUp e here (opened c.session.store) = (.error error, session)) :
      Takes e c (.start here) { c with session, program := .done (.ok ()) }
  | command {order : UserCommand} (idle : c.isIdle = true) :
      Takes e c (.command order) { c with program := command e order, orders := order :: c.orders }
  | drive {fuel : Nat} (idle : c.isIdle = true) :
      Takes e c (.drive fuel) { c with program := driveInner e fuel }
  | act {here : Surroundings mls} {next : Surroundings mls → Session mls → Session mls}
      {rest : Surroundings mls → Session mls → Program mls Unit} (acting : c.program = .act next rest) :
      Takes e c (.act here) { c with session := next here c.session, program := rest here c.session }
  | draw {id : Option MessageId} {rest : Option MessageId → Program mls Unit}
      (drawing : c.program = .draw rest) : Takes e c (.draw id) { c with program := rest id }
  | answered {response : Response} {query : MessageId × Request}
      {rest : Option Response → Program mls Unit} (asking : c.program = .ask query rest) :
      Takes e c (.reply (some response))
        { c with program := rest (some response), answers := (query, response) :: c.answers }
  | lost {query : MessageId × Request} {rest : Option Response → Program mls Unit}
      (asking : c.program = .ask query rest) : Takes e c (.reply none) { c with program := rest none }
  | reconnect (idle : c.isIdle = true) :
      Takes e c .reconnect
        { c with session := { c.session with groups := [] }, program := .done (.ok ()) }
  | crash :
      Takes e c .crash
        { c with session := opened c.session.store, running := false, program := .done (.ok ()) }

theorem step_takes {e : Engine mls} {c d : Process mls} {move : Move mls}
    (taken : c.step e move = some d) : Takes e c move d := by
  cases move with
  | start here =>
    dsimp only [Process.step] at taken
    split at taken
    · cases taken
    rename_i off
    split at taken
    · rename_i ends
      cases taken
      exact .started (by simpa using off) ends
    · rename_i ends
      cases taken
      exact .refused (by simpa using off) ends
  | command _ | drive _ | reconnect =>
    dsimp only [Process.step] at taken
    split at taken
    · cases taken
      constructor
      assumption
    · cases taken
  | act _ | draw _ =>
    dsimp only [Process.step] at taken
    split at taken
    · rename_i moving
      cases taken
      constructor
      exact moving
    · cases taken
  | reply response =>
    cases response
    all_goals
      dsimp only [Process.step] at taken
      split at taken
      · rename_i asking
        cases taken
        constructor
        exact asking
      · cases taken
  | crash =>
    cases taken
    exact .crash

section Governed

variable (e : Engine mls) (uses : Store mls → MessageId → Prop) {result : Except Error Unit}

structure Governed (fresh : MessageId → Prop) (c : Process mls) : Prop where
  sound : Sound e.user c.store
  unused : ∀ id, fresh id → ¬uses c.store id
  leaves : Leaves e c.asked uses c.program c.known fresh c.session

/-- The identifiers drawn and not yet in the tables after a move. -/
def freshAfter (fresh : MessageId → Prop) (move : Move mls) (d : Process mls) (id : MessageId) :
    Prop :=
  (fresh id ∨ move = .draw (some id)) ∧ ¬uses d.store id

def Moves (fresh : MessageId → Prop) (c d : Process mls) : Prop :=
  d.store = c.store ∨ Commits e c.asked c.known fresh c.store d.store

variable {e uses} {fresh : MessageId → Prop} {c d : Process mls} {move : Move mls}

theorem governed_done (safe : Safe e uses fresh d.session)
    (idle : d.program = .done result) : Governed e uses fresh d := by
  refine ⟨safe.sound, safe.unused, ?_⟩
  rw [idle]
  exact safe

theorem Governed.safe_of_idle (governed : Governed e uses fresh c) (idle : c.isIdle = true) :
    Safe e uses fresh c.session := by
  have leaves := governed.leaves
  unfold Process.isIdle at idle
  split at idle
  · rename_i result ended
    rw [ended] at leaves
    exact leaves
  · cases idle

theorem coherent_of_empty {s : Session mls} (empty : s.groups = []) : Coherent s := by
  intro room group held
  rw [empty] at held
  cases held

theorem freshAfter_same (unused : ∀ id, fresh id → ¬uses c.store id) (same : d.store = c.store)
    (undrawn : ∀ id, move ≠ .draw (some id)) : freshAfter uses fresh move d = fresh := by
  funext id
  refine propext ⟨fun left => left.1.resolve_right (undrawn id), fun drawn => ⟨.inl drawn, ?_⟩⟩
  rw [same]
  exact unused id drawn

theorem governed_same (governed : Governed e uses fresh c) (same : d.session = c.session)
    (undrawn : ∀ id, move ≠ .draw (some id))
    (leaves : Leaves e d.asked uses d.program d.known fresh c.session) :
    Governed e uses (freshAfter uses fresh move d) d ∧ Moves e fresh c d := by
  have store : d.store = c.store := congrArg Session.store same
  rw [freshAfter_same governed.unused store undrawn]
  refine ⟨⟨?_, ?_, ?_⟩, .inl store⟩
  · rw [store]
    exact governed.sound
  · rw [store]
    exact governed.unused
  · rw [same]
    exact leaves

theorem freshAfter_undrawn (move : Move mls) (undrawn : ∀ id, move ≠ .draw (some id)) :
    freshAfter uses fresh move d = fun id => fresh id ∧ ¬uses d.store id := by
  funext id
  exact propext ⟨fun left => ⟨left.1.resolve_right (undrawn id), left.2⟩,
    fun both => ⟨.inl both.1, both.2⟩⟩

theorem startUp_changes {here : Surroundings mls} {store : Store mls}
    {session : Session mls} (ends : startUp e here (opened store) = (result, session)) :
    session.groups = [] ∧
      (session.store = store ∨ Vouched e (fun _ => False) e.ownCard ∧
        store.verifiedContacts e.user = none ∧
        session.store = store.insertContact e.user ⟨e.mlsKey.toList, e.ownCard.bytes⟩) ∧
      (result = .ok () → ∃ row, session.store.verifiedContacts e.user = some row ∧
        row.card = e.ownCard.bytes) := by
  have imported : (startUp e).Ends (opened store) _ := ends_importCard
  have reached := imported here
  rw [ends] at reached
  obtain ⟨groups, changed, pinned⟩ := reached
  refine ⟨groups, ?_, pinned ()⟩
  rcases changed with same | ⟨-, valid, new, inserted⟩
  · exact .inl same
  · exact .inr ⟨.own rfl valid, new, inserted⟩

theorem startUp_commits {store after : Store mls} {asked : UserCommand → Prop}
    {known : MessageId × Request → Response → Prop}
    (changed : after = store ∨ Vouched e (fun _ => False) e.ownCard ∧
      store.verifiedContacts e.user = none ∧
      after = store.insertContact e.user ⟨e.mlsKey.toList, e.ownCard.bytes⟩) :
    after = store ∨ Commits e asked known fresh store after := by
  rcases changed with same | ⟨vouched, new, rfl⟩
  · exact .inl same
  · refine .inr (@Commits.contact _ e asked known fresh store e.ownCard ?_ new)
    cases vouched with
    | given order => exact order.elim
    | own mine valid => exact .own mine valid

theorem governed_changed (governed : Governed e uses fresh c)
    (moves : Moves e fresh c d) (groups : d.session.groups = []) (idle : d.program = .done result) :
    Governed e uses (freshAfter uses fresh move d) d := by
  refine governed_done ⟨coherent_of_empty groups, ?_, fun _ left => left.2⟩ idle
  rcases moves with same | commits
  · change Sound e.user d.store
    rw [same]
    exact governed.sound
  · exact governed.sound.commits commits

theorem governed_draw {drawn : Option MessageId} {rest : Option MessageId → Program mls Unit}
    (governed : Governed e uses fresh c) (drawing : c.program = .draw rest)
    (new : ∀ id, drawn = some id → ¬uses c.store id) :
    Governed e uses (freshAfter uses fresh (.draw drawn) { c with program := rest drawn })
      { c with program := rest drawn } := by
  have leaves := governed.leaves
  rw [drawing] at leaves
  cases drawn with
  | none =>
    have same : Governed e uses (freshAfter uses fresh (.draw none) _) _ ∧
      Moves e fresh c { c with program := rest none } := governed_same governed rfl nofun leaves.2
    exact same.1
  | some id =>
    have unused := new id rfl
    refine ⟨governed.sound, fun _ left => left.2, ?_⟩
    have widened : freshAfter uses fresh (.draw (some id)) { c with program := rest (some id) } =
        fun other => fresh other ∨ other = id := by
      funext other
      refine propext ⟨fun left => left.1.imp_right fun same => ?_, fun either => ⟨?_, ?_⟩⟩
      · cases same
        rfl
      · exact either.imp_right fun same => by rw [same]
      · rcases either with old | rfl
        · exact governed.unused other old
        · exact unused
    rw [widened]
    exact leaves.1 id unused

theorem governed_step (governed : Governed e uses fresh c)
    (new : ∀ id, move = .draw (some id) → ¬uses c.store id) (taken : c.step e move = some d) :
    Governed e uses (freshAfter uses fresh move d) d ∧ Moves e fresh c d := by
  have leaves := governed.leaves
  cases step_takes taken with
  | started _ ends | refused _ ends =>
    obtain ⟨groups, changed, -⟩ := startUp_changes ends
    exact ⟨governed_changed governed (startUp_commits changed) groups rfl, startUp_commits changed⟩
  | @act here next rest acting =>
    rw [acting] at leaves
    obtain ⟨may, follows⟩ := leaves here
    refine ⟨⟨?_, fun _ left => left.2, ?_⟩, may⟩
    · rcases may with same | commits
      · change Sound e.user (next here c.session).store
        rw [same]
        exact governed.sound
      · exact governed.sound.commits commits
    · rw [freshAfter_undrawn (.act here) nofun]
      exact follows
  | draw drawing =>
    exact ⟨governed_draw governed drawing fun id same => new id (congrArg _ same), .inl rfl⟩
  | lost asking =>
    rw [asking] at leaves
    exact governed_same governed rfl nofun (leaves.2 c.known le_rfl).2
  | answered asking =>
    rw [asking] at leaves
    refine governed_same governed rfl nofun ?_
    exact (leaves.2 _ fun _ _ old => List.mem_cons_of_mem _ old).1 _ List.mem_cons_self
  | command idle =>
    exact governed_same governed rfl nofun
      (leaves_command _ List.mem_cons_self (governed.safe_of_idle idle))
  | drive idle =>
    exact governed_same governed rfl nofun (leaves_driveInner _ (governed.safe_of_idle idle))
  | reconnect _ | crash => exact ⟨governed_changed governed (.inl rfl) rfl rfl, .inl rfl⟩

theorem governed_off (fresh : MessageId → Prop)
    (unused : ∀ id, fresh id → ¬uses (Store.empty mls) id) :
    Governed e uses fresh (Process.off mls) :=
  governed_done ⟨coherent_opened _, sound_empty e.user, unused⟩ rfl

theorem Governed.sends {query : MessageId × Request}
    {rest : Option Response → Program mls Unit} (governed : Governed e uses fresh c)
    (asking : c.program = .ask query rest) :
    Entry c.store query.1 query.2 ∨ query.2.isRead = true := by
  have leaves := governed.leaves
  rw [asking] at leaves
  exact leaves.1

end Governed

section Runs

variable {e : Engine mls} {c d : Process mls} {move : Move mls}

def Resting (c : Process mls) : Prop := c.running = false → ∃ result, c.program = .done result

theorem Resting.busy (resting : Resting c) (busy : ∀ result, c.program ≠ .done result) :
    c.running = true := by
  cases on : c.running with
  | true => rfl
  | false =>
    obtain ⟨result, ended⟩ := resting on
    exact absurd ended (busy result)

theorem running_of_idle (idle : c.isIdle = true) : c.running = true := by
  unfold Process.isIdle at idle
  split at idle
  · exact idle
  · cases idle

theorem step_running (resting : Resting c) (taken : c.step e move = some d) :
    Resting d ∧ ((∃ here, move = .start here) ∨ c.running = true ∨
      d.running = false ∧ d.store = c.store) := by
  have steady : ∀ {d : Process mls}, c.running = true → d.running = c.running →
      Resting d ∧ ((∃ here, move = .start here) ∨ c.running = true ∨
        d.running = false ∧ d.store = c.store) := by
    intro d on same
    refine ⟨fun off => ?_, .inr (.inl on)⟩
    rw [same, on] at off
    cases off
  cases step_takes taken with
  | started _ _ => exact ⟨nofun, .inl ⟨_, rfl⟩⟩
  | refused _ _ => exact ⟨fun _ => ⟨_, rfl⟩, .inl ⟨_, rfl⟩⟩
  | crash => exact ⟨fun _ => ⟨_, rfl⟩, .inr (.inr ⟨rfl, rfl⟩)⟩
  | command idle | drive idle | reconnect idle => exact steady (running_of_idle idle) rfl
  | act moving | draw moving | answered moving | lost moving =>
    refine steady (resting.busy fun result ended => ?_) rfl
    rw [ended] at moving
    cases moving

theorem step_remembers (taken : c.step e move = some d) :
    (∀ order, c.asked order → d.asked order) ∧ ∀ query response, c.known query response →
      d.known query response := by
  cases step_takes taken with
  | answered _ => exact ⟨fun _ => id, fun _ _ => List.mem_cons_of_mem _⟩
  | command _ => exact ⟨fun _ => List.mem_cons_of_mem _, fun _ _ => id⟩
  | _ => exact ⟨fun _ => id, fun _ _ => id⟩

theorem step_known (taken : c.step e move = some d) {query : MessageId × Request}
    {response : Response} (known : d.known query response) :
    c.known query response ∨
      move = .reply (some response) ∧ ∃ rest, c.program = .ask query rest := by
  cases step_takes taken with
  | answered asking =>
    rcases List.mem_cons.mp known with same | old
    · cases same
      exact .inr ⟨rfl, _, asking⟩
    · exact .inl old
  | _ => exact .inl known

theorem run_cons {moves : List (Move mls)} :
    c.run e (move :: moves) = some d ↔ ∃ next, c.step e move = some next ∧ next.run e moves = some d := by
  unfold Process.run
  rw [List.foldlM_cons]
  exact Option.bind_eq_some_iff

theorem run_keeps {good : Process mls → Prop}
    (kept : ∀ c move d, good c → c.step e move = some d → good d) {moves : List (Move mls)}
    (start : good c) (ran : c.run e moves = some d) : good d := by
  induction moves generalizing c with
  | nil =>
    cases ran
    exact start
  | cons move moves ih =>
    obtain ⟨next, taken, rest⟩ := run_cons.mp ran
    exact ih (kept c move next start taken) rest

/-- A client governed whatever identifiers it draws and whatever it is answered. -/
abbrev Regular (e : Engine mls) (c : Process mls) : Prop :=
  Governed e (fun _ _ => False) (fun _ => True) c

theorem regular_step (regular : Regular e c) (taken : c.step e move = some d) :
    Regular e d ∧ Moves e (fun _ => True) c d := by
  obtain ⟨governed, moves⟩ := governed_step regular (fun _ _ never => never) taken
  have all : freshAfter (fun _ _ => False) (fun _ => True) move d = fun _ => True :=
    funext fun _ => propext ⟨fun _ => trivial, fun _ => ⟨.inl trivial, fun never => never⟩⟩
  rw [all] at governed
  exact ⟨governed, moves⟩

def Reachable (e : Engine mls) (c : Process mls) : Prop :=
  ∃ moves, (Process.off mls).run e moves = some c

theorem reachable_off : Reachable e (Process.off mls) := ⟨[], rfl⟩

theorem Reachable.step (reachable : Reachable e c)
    (taken : c.step e move = some d) : Reachable e d := by
  obtain ⟨moves, ran⟩ := reachable
  refine ⟨moves ++ [move], ?_⟩
  unfold Process.run at ran ⊢
  rw [List.foldlM_append, ran]
  change c.step e move >>= pure = some d
  rw [taken]
  rfl

theorem Reachable.regular (reachable : Reachable e c) : Regular e c := by
  obtain ⟨moves, ran⟩ := reachable
  exact run_keeps (fun _ _ _ regular taken => (regular_step regular taken).1)
    (governed_off _ fun _ _ never => never) ran

inductive ReachableBy (e : Engine mls) (meets : Process mls → Move mls → Process mls → Prop) :
    Process mls → Prop
  | off : ReachableBy e meets (Process.off mls)
  | step {c d : Process mls} {move : Move mls} (before : ReachableBy e meets c)
      (taken : c.step e move = some d) (met : meets c move d) : ReachableBy e meets d

theorem ReachableBy.reachable {meets : Process mls → Move mls → Process mls → Prop}
    (run : ReachableBy e meets c) : Reachable e c := by
  induction run with
  | off => exact reachable_off
  | step _ taken _ ih => exact ih.step taken

end Runs

section Plays

variable (e : Engine mls) (here : Surroundings mls)

/-- The program carried on in one machine, with identifiers and answers in the order given. -/
def follow : Nat → List MessageId → List Response → Process mls → Process mls
  | 0, _, _, c => c
  | fuel + 1, ids, answers, c =>
    match c.program with
    | .done _ => c
    | .act _ _ => ((c.step e (.act here)).map (follow fuel ids answers)).getD c
    | .draw _ => ((c.step e (.draw ids.head?)).map (follow fuel ids.tail answers)).getD c
    | .ask _ _ => ((c.step e (.reply answers.head?)).map (follow fuel ids answers.tail)).getD c

def playFor (steps : Nat) (move : Move mls) (ids : List MessageId) (answers : List Response)
    (c : Process mls) : Process mls :=
  ((c.step e move).map (follow e here steps ids answers)).getD c

def play : Move mls → List MessageId → List Response → Process mls → Process mls :=
  playFor e here 200

variable {e here} {c : Process mls}

theorem Reachable.mapped {move : Move mls} {next : Process mls → Process mls}
    (reachable : Reachable e c) (kept : ∀ d, Reachable e d → Reachable e (next d)) :
    Reachable e (((c.step e move).map next).getD c) := by
  cases taken : c.step e move with
  | none => exact reachable
  | some d => exact kept d (reachable.step taken)

theorem Reachable.follow (fuel : Nat) (ids : List MessageId) (answers : List Response)
    (reachable : Reachable e c) : Reachable e (follow e here fuel ids answers c) := by
  induction fuel generalizing ids answers c with
  | zero => exact reachable
  | succ fuel ih =>
    unfold Machine.follow
    split
    · exact reachable
    · exact reachable.mapped fun _ => ih _ _
    · exact reachable.mapped fun _ => ih _ _
    · exact reachable.mapped fun _ => ih _ _

theorem Reachable.playFor (steps : Nat) (move : Move mls) (ids : List MessageId)
    (answers : List Response) (reachable : Reachable e c) :
    Reachable e (playFor e here steps move ids answers c) :=
  reachable.mapped fun _ => Reachable.follow _ _ _

theorem Reachable.play (move : Move mls) (ids : List MessageId) (answers : List Response)
    (reachable : Reachable e c) : Reachable e (play e here move ids answers c) :=
  reachable.playFor 200 move ids answers

/-- Whether the steps `follow` takes pass a test. -/
def audit (e : Engine mls) (here : Surroundings mls) (passes : Process mls → Move mls → Process mls → Bool) :
    Nat → List MessageId → List Response → Process mls → Bool
  | 0, _, _, _ => true
  | fuel + 1, ids, answers, c =>
    let checked (move : Move mls) (rest : Process mls → Bool) : Bool :=
      (c.step e move).all fun d => passes c move d && rest d
    match c.program with
    | .done _ => true
    | .act _ _ => checked (.act here) (audit e here passes fuel ids answers)
    | .draw _ => checked (.draw ids.head?) (audit e here passes fuel ids.tail answers)
    | .ask _ _ => checked (.reply answers.head?) (audit e here passes fuel ids answers.tail)

/-- Whether the steps `playFor` takes pass a test. -/
def auditPlay (e : Engine mls) (here : Surroundings mls)
    (passes : Process mls → Move mls → Process mls → Bool)
    (steps : Nat) (move : Move mls) (ids : List MessageId) (answers : List Response)
    (c : Process mls) : Bool :=
  (c.step e move).all fun d => passes c move d && audit e here passes steps ids answers d

section Audits

variable {meets : Process mls → Move mls → Process mls → Prop}
variable {passes : Process mls → Move mls → Process mls → Bool}

theorem ReachableBy.mapped {move : Move mls} {next : Process mls → Process mls}
    {rest : Process mls → Bool} (sound : ∀ c move d, passes c move d = true → meets c move d)
    (reachable : ReachableBy e meets c)
    (passed : ((c.step e move).all fun d => passes c move d && rest d) = true)
    (kept : ∀ d, ReachableBy e meets d → rest d = true → ReachableBy e meets (next d)) :
    ReachableBy e meets (((c.step e move).map next).getD c) := by
  cases taken : c.step e move with
  | none => exact reachable
  | some d =>
    rw [taken] at passed
    obtain ⟨met, onward⟩ := Bool.and_eq_true_iff.mp passed
    exact kept d (reachable.step taken (sound c move d met)) onward

theorem ReachableBy.follow (sound : ∀ c move d, passes c move d = true → meets c move d)
    (fuel : Nat) (ids : List MessageId) (answers : List Response)
    (reachable : ReachableBy e meets c) (passed : audit e here passes fuel ids answers c = true) :
    ReachableBy e meets (follow e here fuel ids answers c) := by
  induction fuel generalizing ids answers c with
  | zero => exact reachable
  | succ fuel ih =>
    unfold Machine.follow
    unfold audit at passed
    split at passed
    · exact reachable
    · exact reachable.mapped sound passed fun _ => ih _ _
    · exact reachable.mapped sound passed fun _ => ih _ _
    · exact reachable.mapped sound passed fun _ => ih _ _

theorem ReachableBy.playFor (sound : ∀ c move d, passes c move d = true → meets c move d)
    (steps : Nat) (move : Move mls) (ids : List MessageId) (answers : List Response)
    (reachable : ReachableBy e meets c)
    (passed : auditPlay e here passes steps move ids answers c = true) :
    ReachableBy e meets (playFor e here steps move ids answers c) :=
  reachable.mapped sound passed fun _ onward audited =>
    ReachableBy.follow sound steps ids answers onward audited

theorem ReachableBy.play (sound : ∀ c move d, passes c move d = true → meets c move d)
    (move : Move mls) (ids : List MessageId) (answers : List Response)
    (reachable : ReachableBy e meets c)
    (passed : auditPlay e here passes 200 move ids answers c = true) :
    ReachableBy e meets (play e here move ids answers c) :=
  reachable.playFor sound 200 move ids answers passed

end Audits

def trailingBytes : Transcripts.Hash := fun bytes =>
  ⟨((bytes.reverse ++ List.replicate 32 0).take 32).reverse, by simp⟩

def clearEngine (user : UserId) : Engine Cleartext.mls where
  user := user
  client := ⟨user, ⟨user.bytes.toList ++ user.bytes.toList, by simp⟩⟩
  crypto := ⟨trailingBytes, fun _ _ _ => true⟩
  transportKey := Octets.replicate 32 1
  mlsKey := ⟨user.bytes.toList ++ user.bytes.toList, by simp⟩
  sign _ := Octets.replicate 64 0

def sampleUser (n : UInt8) : UserId := ⟨Octets.replicate 16 n⟩
def sampleRoom (n : UInt8) : RoomId := ⟨Octets.replicate 16 n⟩
def sampleId (n : UInt8) : MessageId := ⟨Octets.replicate 16 n⟩

def calm : Surroundings Cleartext.mls where
  fault _ := false
  pageSize := 4096
  pageCount _ := 16
  newDataLimit := 2 ^ 30
  seed _ := ()

def awake : Process Cleartext.mls :=
  play (clearEngine (sampleUser 1)) calm (.start calm) [] [] (Process.off _)

def asking : Process Cleartext.mls :=
  play (clearEngine (sampleUser 1)) calm (.command (.createRoom "a")) [sampleId 1] [] awake

def founded : Process Cleartext.mls :=
  play (clearEngine (sampleUser 1)) calm (.drive 9) [sampleId 2, sampleId 3]
    [.roomCreated (sampleRoom 9), .welcomes 0 [] false,
      .syncIndex [⟨sampleRoom 9, "a", 0⟩] false] asking

theorem reachable_founded : Reachable (clearEngine (sampleUser 1)) founded :=
  ((reachable_off.play _ _ _).play _ _ _).play _ _ _

end Plays

end Grotto.Client.Machine
