/- GID: Grotto/Client/Guard
   digest: The client store's transaction guard: its connection lock, its owner and its poison flag over
   every sequence of calls with failing transaction statements. -/

import Grotto.Base.Transactions
import Grotto.Client.Contacts

set_option autoImplicit false

namespace Grotto.Client.Guard

open Base.Transactions Contacts

abbrev ThreadId := Nat

inductive Access
  | lock | provider
  deriving DecidableEq

/-- The store's shared state; `held` is the connection's mutex, `guards` the transaction guards that live. -/
structure ClientStore (D : Type) where
  connection : Connection D
  held : Option (ThreadId × Access)
  owner : Option ThreadId
  poisoned : Bool
  guards : List ThreadId

variable {D : Type}

def opened (data : D) : ClientStore D := ⟨⟨data, none⟩, none, none, false, []⟩

namespace ClientStore

/-- `lock`, up to the guard it returns; `none` is a thread that waits for the mutex. -/
def lock (s : ClientStore D) (thread : ThreadId) : Option (Except StoreError Unit) :=
  if s.poisoned then some (.error .lockPoisoned)
  else if s.held.isSome then none
  else if s.owner.any (· ≠ thread) then
    some (.error (.invalidData "transaction belongs to another worker"))
  else some (.ok ())

/-- `lock_provider`, likewise. -/
def lockProvider (s : ClientStore D) : Option (Except StoreError Unit) :=
  if s.poisoned then some (.error .lockPoisoned)
  else if s.held.isSome then none
  else some (.ok ())

def transaction (s : ClientStore D) (thread : ThreadId) (fails : Bool) :
    Option (Except StoreError Unit × ClientStore D) :=
  (s.lock thread).map fun locked =>
    match locked with
    | .error e => (.error e, s)
    | .ok () =>
      if s.owner.isSome then (.error (.invalidData "nested client transaction"), s)
      else
        match s.connection.beginImmediate fails with
        | (false, c) => (.error .database, { s with connection := c })
        | (true, c) =>
          (.ok (), { s with connection := c, owner := some thread, guards := thread :: s.guards })

/-- `ClientTransaction::drop` of a guard that is not done. -/
def dropGuard (s : ClientStore D) (thread : ThreadId) (failure : Option Residue) :
    Option (ClientStore D) :=
  (s.lock thread).map fun locked =>
    match locked with
    | .error _ => { s with guards := s.guards.erase thread }
    | .ok () =>
      match s.connection.rollback failure with
      | (false, c) => { s with connection := c, poisoned := true, guards := s.guards.erase thread }
      | (true, c) => { s with connection := c, owner := none, guards := s.guards.erase thread }

/-- `ClientTransaction::commit`; every error drops the guard undone. -/
def commit (s : ClientStore D) (thread : ThreadId) (failure undo : Option Residue) :
    Option (Except StoreError Unit × ClientStore D) :=
  match s.lock thread with
  | none => none
  | some (.error e) => (s.dropGuard thread undo).map fun s => (.error e, s)
  | some (.ok ()) =>
    match s.connection.commit failure with
    | (false, c) =>
      ({ s with connection := c }.dropGuard thread undo).map fun s => (.error .database, s)
    | (true, c) =>
      some (.ok (), { s with connection := c, owner := none, guards := s.guards.erase thread })

end ClientStore

inductive Call (D : Type)
  | transaction (thread : ThreadId) (fails : Bool)
  | lock (thread : ThreadId)
  | lockProvider (thread : ThreadId)
  | release
  | statement (f : D → D)
  | commit (thread : ThreadId) (failure undo : Option Residue)
  | drop (thread : ThreadId) (undo : Option Residue)

/-- A call and its answer; `none` if it waits, or has no guard to work with. -/
def call : Call D → ClientStore D → Option (Except StoreError Unit × ClientStore D)
  | .transaction thread fails, s => s.transaction thread fails
  | .lock thread, s => (s.lock thread).map fun locked =>
    (locked, if locked = .ok () then { s with held := some (thread, .lock) } else s)
  | .lockProvider thread, s => s.lockProvider.map fun locked =>
    (locked, if locked = .ok () then { s with held := some (thread, .provider) } else s)
  | .release, s => s.held.map fun _ => (.ok (), { s with held := none })
  | .statement f, s => s.held.map fun _ => (.ok (), { s with connection := s.connection.execute f })
  | .commit thread failure undo, s =>
    if thread ∈ s.guards then s.commit thread failure undo else none
  | .drop thread undo, s =>
    if thread ∈ s.guards then (s.dropGuard thread undo).map fun s => (.ok (), s) else none

def after : List (Call D) → ClientStore D → Option (ClientStore D)
  | [], s => some s
  | c :: calls, s => (call c s).bind fun result => after calls result.2

section Effects

variable {s s' : ClientStore D} {thread : ThreadId} {answer : Except StoreError Unit}

def released (s : ClientStore D) (c : Connection D) : ClientStore D :=
  { s with connection := c, owner := none, guards := [] }

def shut (s : ClientStore D) (c : Connection D) : ClientStore D :=
  { s with connection := c, poisoned := true, guards := [] }

structure Owned (s : ClientStore D) (thread : ThreadId) : Prop where
  sound : s.poisoned = false
  owner : s.owner = some thread
  only : s.guards = [thread]

theorem lock_cases (locked : s.lock thread = some answer) :
    s.poisoned = true ∧ answer = .error .lockPoisoned ∨
      s.poisoned = false ∧ s.held = none ∧
        ((∃ other, s.owner = some other ∧ other ≠ thread) ∧ (∃ e, answer = .error e) ∨
          (s.owner = none ∨ s.owner = some thread) ∧ answer = .ok ()) := by
  unfold ClientStore.lock at locked
  split at locked
  · rename_i poisoned
    exact .inl ⟨poisoned, (Option.some.inj locked).symm⟩
  rename_i sound
  split at locked
  · cases locked
  rename_i free
  refine .inr ⟨Bool.eq_false_iff.mpr sound, Option.not_isSome_iff_eq_none.mp free, ?_⟩
  cases owner : s.owner with
  | none =>
    rw [owner, if_neg (by simp)] at locked
    exact .inr ⟨.inl rfl, (Option.some.inj locked).symm⟩
  | some other =>
    rw [owner] at locked
    by_cases own : other = thread
    · rw [if_neg (by simpa using own)] at locked
      exact .inr ⟨.inr (congrArg some own), (Option.some.inj locked).symm⟩
    · rw [if_pos (by simpa using own)] at locked
      exact .inl ⟨⟨other, rfl, own⟩, _, (Option.some.inj locked).symm⟩

theorem lock_owned (owned : Owned s thread) (locked : s.lock thread = some answer) :
    s.held = none ∧ answer = .ok () := by
  rcases lock_cases locked with ⟨poisoned, -⟩ | ⟨-, free, ⟨⟨other, owner, apart⟩, -⟩ | ⟨-, granted⟩⟩
  · rw [owned.sound] at poisoned
    cases poisoned
  · rw [owned.owner] at owner
    exact absurd (Option.some.inj owner).symm apart
  · exact ⟨free, granted⟩

theorem lockProvider_cases (locked : s.lockProvider = some answer) :
    s.poisoned = true ∧ answer = .error .lockPoisoned ∨
      s.poisoned = false ∧ s.held = none ∧ answer = .ok () := by
  unfold ClientStore.lockProvider at locked
  split at locked
  · rename_i poisoned
    exact .inl ⟨poisoned, (Option.some.inj locked).symm⟩
  rename_i sound
  split at locked
  · cases locked
  · rename_i free
    exact .inr ⟨Bool.eq_false_iff.mpr sound, Option.not_isSome_iff_eq_none.mp free,
      (Option.some.inj locked).symm⟩

theorem transaction_cases {fails : Bool} (called : s.transaction thread fails = some (answer, s')) :
    (∃ e, answer = .error e) ∧ s' = s ∨
      answer = .ok () ∧ s.poisoned = false ∧ s.held = none ∧ s.owner = none ∧
        s.connection.working = none ∧
        s' = { s with connection := ⟨s.connection.durable, some s.connection.durable⟩,
                      owner := some thread, guards := thread :: s.guards } := by
  obtain ⟨locked, granted, result⟩ := Option.map_eq_some_iff.mp called
  rcases lock_cases granted with ⟨-, rfl⟩ | ⟨sound, free, ⟨-, ⟨e, rfl⟩⟩ | ⟨-, rfl⟩⟩
  · cases result
    exact .inl ⟨⟨_, rfl⟩, rfl⟩
  · cases result
    exact .inl ⟨⟨_, rfl⟩, rfl⟩
  dsimp only at result
  split at result
  · cases result
    exact .inl ⟨⟨_, rfl⟩, rfl⟩
  rename_i unowned
  rcases Connection.begin_cases fails with ⟨idle, begun⟩ | failed
  · rw [begun] at result
    cases result
    exact .inr ⟨rfl, sound, free, Option.not_isSome_iff_eq_none.mp unowned, idle, rfl⟩
  · rw [failed] at result
    cases result
    exact .inl ⟨⟨_, rfl⟩, rfl⟩

theorem dropGuard_cases {undo : Option Residue} (owned : Owned s thread)
    (dropped : s.dropGuard thread undo = some s') :
    s.held = none ∧ (s.connection.working.isSome ∧ s' = released s ⟨s.connection.durable, none⟩ ∨
      ∃ c, s' = shut s c) := by
  obtain ⟨locked, granted, result⟩ := Option.map_eq_some_iff.mp dropped
  obtain ⟨free, rfl⟩ := lock_owned owned granted
  have none : s.guards.erase thread = [] := by rw [owned.only, List.erase_cons_head]
  refine ⟨free, ?_⟩
  rw [none] at result
  rcases Connection.rollback_cases undo with ⟨standing, rolled⟩ | ⟨c, failed⟩
  · rw [rolled] at result
    exact .inl ⟨standing, result.symm⟩
  · rw [failed] at result
    exact .inr ⟨c, result.symm⟩

theorem commit_cases {failure undo : Option Residue} (owned : Owned s thread)
    (called : s.commit thread failure undo = some (answer, s')) :
    s.held = none ∧
      ((∃ data, s.connection.working = some data ∧ answer = .ok () ∧ s' = released s ⟨data, none⟩) ∨
        (∃ e, answer = .error e) ∧
          (s.connection.working.isSome ∧ s' = released s ⟨s.connection.durable, none⟩ ∨
            ∃ c, s' = shut s c)) := by
  unfold ClientStore.commit at called
  cases locked : s.lock thread with
  | none =>
    rw [locked] at called
    cases called
  | some granted =>
    obtain ⟨free, rfl⟩ := lock_owned owned locked
    refine ⟨free, ?_⟩
    rw [locked] at called
    rcases Connection.commit_cases failure with ⟨data, standing, committed⟩ | ⟨c, failed, ended⟩
    · rw [committed] at called
      have none : s.guards.erase thread = [] := by rw [owned.only, List.erase_cons_head]
      rw [none] at called
      cases called
      exact .inl ⟨data, standing, rfl, rfl⟩
    · rw [failed] at called
      obtain ⟨left, dropped, result⟩ := Option.map_eq_some_iff.mp called
      cases result
      have same : Owned { s with connection := c } thread := ⟨owned.sound, owned.owner, owned.only⟩
      refine .inr ⟨⟨_, rfl⟩, ?_⟩
      rcases (dropGuard_cases same dropped).2 with ⟨standing, rfl⟩ | ⟨c', rfl⟩
      · rcases ended with closed | rfl
        · rw [closed] at standing
          cases standing
        · exact .inl ⟨standing, rfl⟩
      · exact .inr ⟨c', rfl⟩

end Effects

variable {c : Call D} {calls : List (Call D)}

section Invariant

variable {s s' : ClientStore D}

structure Guarded (s : ClientStore D) : Prop where
  owned : s.poisoned = false → s.owner.isSome = s.connection.working.isSome
  live : s.poisoned = false → s.guards = s.owner.toList
  closed : s.poisoned = true → s.guards = []
  keeper : ∀ thread, s.held = some (thread, .lock) → s.owner = none ∨ s.owner = some thread

theorem guarded_opened (data : D) : Guarded (opened data) where
  owned _ := rfl
  live _ := rfl
  closed impossible := Bool.noConfusion impossible
  keeper _ _ := .inl rfl

theorem Guarded.owner_of_mem (guarded : Guarded s) {thread : ThreadId} (listed : thread ∈ s.guards) :
    Owned s thread := by
  cases poisoned : s.poisoned with
  | true =>
    rw [guarded.closed poisoned] at listed
    exact absurd listed List.not_mem_nil
  | false =>
    have live := guarded.live poisoned
    cases owner : s.owner with
    | none =>
      rw [live, owner] at listed
      exact absurd listed List.not_mem_nil
    | some other =>
      rw [live, owner] at listed
      obtain rfl := List.mem_singleton.mp listed
      exact ⟨poisoned, owner, by rw [live, owner]; rfl⟩

theorem guarded_released (sound : s.poisoned = false) (data : D) :
    Guarded (released s ⟨data, none⟩) where
  owned _ := rfl
  live _ := rfl
  closed poisoned := absurd (sound.symm.trans poisoned) Bool.noConfusion
  keeper _ _ := .inl rfl

theorem guarded_shut (free : s.held = none) (c : Connection D) : Guarded (shut s c) where
  owned impossible := Bool.noConfusion impossible
  live impossible := Bool.noConfusion impossible
  closed _ := rfl
  keeper _ taken := by cases free.symm.trans taken

/-- One call keeps the invariant. -/
theorem guarded_call {answer : Except StoreError Unit} (guarded : Guarded s)
    (called : call c s = some (answer, s')) : Guarded s' := by
  cases c with
  | transaction thread fails =>
    rcases transaction_cases called with ⟨-, rfl⟩ | ⟨-, sound, free, unowned, -, rfl⟩
    · exact guarded
    refine ⟨fun _ => rfl, fun _ => ?_, fun poisoned => ?_, fun other taken => ?_⟩
    · rw [guarded.live sound, unowned]
      rfl
    · rw [sound] at poisoned
      cases poisoned
    · rw [free] at taken
      cases taken
  | lock thread =>
    obtain ⟨locked, granted, result⟩ := Option.map_eq_some_iff.mp called
    rcases lock_cases granted with ⟨-, rfl⟩ | ⟨-, -, ⟨-, ⟨e, rfl⟩⟩ | ⟨own, rfl⟩⟩
    · cases result
      exact guarded
    · cases result
      exact guarded
    · cases result
      refine ⟨guarded.owned, guarded.live, guarded.closed, fun other taken => ?_⟩
      cases taken
      exact own
  | lockProvider thread =>
    obtain ⟨locked, granted, result⟩ := Option.map_eq_some_iff.mp called
    rcases lockProvider_cases granted with ⟨-, rfl⟩ | ⟨-, -, rfl⟩
    · cases result
      exact guarded
    · cases result
      exact ⟨guarded.owned, guarded.live, guarded.closed, fun _ taken => by cases taken⟩
  | release =>
    obtain ⟨holder, taken, result⟩ := Option.map_eq_some_iff.mp called
    cases result
    exact ⟨guarded.owned, guarded.live, guarded.closed, fun _ taken => by cases taken⟩
  | statement f =>
    obtain ⟨holder, taken, result⟩ := Option.map_eq_some_iff.mp called
    cases result
    refine ⟨fun sound => ?_, guarded.live, guarded.closed, guarded.keeper⟩
    exact (guarded.owned sound).trans (Connection.isSome_execute f).symm
  | commit thread failure undo =>
    obtain ⟨listed, called⟩ := Option.ite_none_right_eq_some.mp called
    have owned := guarded.owner_of_mem listed
    obtain ⟨free, ⟨data, -, -, rfl⟩ | ⟨-, ⟨-, rfl⟩ | ⟨c, rfl⟩⟩⟩ := commit_cases owned called
    · exact guarded_released owned.sound data
    · exact guarded_released owned.sound _
    · exact guarded_shut free c
  | drop thread undo =>
    obtain ⟨listed, called⟩ := Option.ite_none_right_eq_some.mp called
    have owned := guarded.owner_of_mem listed
    obtain ⟨left, dropped, result⟩ := Option.map_eq_some_iff.mp called
    cases result
    obtain ⟨free, ⟨-, rfl⟩ | ⟨c, rfl⟩⟩ := dropGuard_cases owned dropped
    · exact guarded_released owned.sound _
    · exact guarded_shut free c

theorem guarded_after (guarded : Guarded s) (reached : after calls s = some s') : Guarded s' := by
  induction calls generalizing s with
  | nil =>
    cases reached
    exact guarded
  | cons c calls ih =>
    obtain ⟨result, called, rest⟩ := Option.bind_eq_some_iff.mp reached
    exact ih (guarded_call guarded called) rest

end Invariant

section Runs

variable {s s' : ClientStore D} {answer : Except StoreError Unit}

def Call.ends : Call D → Bool
  | .commit .. => true
  | .drop .. => true
  | _ => false

def Call.effect : Call D → D → D
  | .statement f, data => f data
  | _, data => data

def applied (calls : List (Call D)) (data : D) : D := calls.foldl (fun data c => c.effect data) data

def Refuses (s : ClientStore D) : Prop :=
  ∀ thread fails, call (.lock thread) s = some (.error .lockPoisoned, s) ∧
    call (.lockProvider thread) s = some (.error .lockPoisoned, s) ∧
    call (.transaction thread fails) s = some (.error .lockPoisoned, s)

theorem refuses_of_poisoned (poisoned : s.poisoned = true) : Refuses s := by
  intro thread fails
  have locked : s.lock thread = some (.error .lockPoisoned) := if_pos poisoned
  have provider : s.lockProvider = some (.error .lockPoisoned) := if_pos poisoned
  refine ⟨?_, ?_, ?_⟩
  · rw [call, locked]
    rfl
  · rw [call, provider]
    rfl
  · rw [call, ClientStore.transaction, locked]
    rfl

theorem poisoned_call (guarded : Guarded s)
    (poisoned : s.poisoned = true) (called : call c s = some (answer, s')) : s'.poisoned = true := by
  cases c with
  | transaction thread fails =>
    cases (refuses_of_poisoned poisoned thread fails).2.2.symm.trans called
    exact poisoned
  | lock thread =>
    cases (refuses_of_poisoned poisoned thread false).1.symm.trans called
    exact poisoned
  | lockProvider thread =>
    cases (refuses_of_poisoned poisoned thread false).2.1.symm.trans called
    exact poisoned
  | release =>
    obtain ⟨holder, taken, result⟩ := Option.map_eq_some_iff.mp called
    cases result
    exact poisoned
  | statement f =>
    obtain ⟨holder, taken, result⟩ := Option.map_eq_some_iff.mp called
    cases result
    exact poisoned
  | commit thread failure undo =>
    obtain ⟨listed, -⟩ := Option.ite_none_right_eq_some.mp called
    rw [guarded.closed poisoned] at listed
    exact absurd listed List.not_mem_nil
  | drop thread undo =>
    obtain ⟨listed, -⟩ := Option.ite_none_right_eq_some.mp called
    rw [guarded.closed poisoned] at listed
    exact absurd listed List.not_mem_nil

theorem poisoned_after (guarded : Guarded s) (poisoned : s.poisoned = true)
    (reached : after calls s = some s') : s'.poisoned = true := by
  induction calls generalizing s with
  | nil =>
    cases reached
    exact poisoned
  | cons c calls ih =>
    obtain ⟨result, called, rest⟩ := Option.bind_eq_some_iff.mp reached
    exact ih (guarded_call guarded called) (poisoned_call guarded poisoned called) rest

structure Open (s : ClientStore D) (base data : D) : Prop where
  sound : s.poisoned = false
  durable : s.connection.durable = base
  working : s.connection.working = some data

theorem open_call {base data : D} (standing : Open s base data)
    (going : c.ends = false) (called : call c s = some (answer, s')) :
    Open s' base (c.effect data) := by
  cases c with
  | transaction thread fails =>
    rcases transaction_cases called with ⟨-, rfl⟩ | ⟨-, -, -, -, idle, -⟩
    · exact standing
    · cases standing.working.symm.trans idle
  | lock thread =>
    obtain ⟨locked, granted, result⟩ := Option.map_eq_some_iff.mp called
    cases result
    split
    · exact ⟨standing.sound, standing.durable, standing.working⟩
    · exact standing
  | lockProvider thread =>
    obtain ⟨locked, granted, result⟩ := Option.map_eq_some_iff.mp called
    cases result
    split
    · exact ⟨standing.sound, standing.durable, standing.working⟩
    · exact standing
  | release =>
    obtain ⟨holder, taken, result⟩ := Option.map_eq_some_iff.mp called
    cases result
    exact ⟨standing.sound, standing.durable, standing.working⟩
  | statement f =>
    obtain ⟨holder, taken, result⟩ := Option.map_eq_some_iff.mp called
    cases result
    have moved := @Connection.execute_open _ _ f _ standing.working
    exact ⟨standing.sound, (congrArg Connection.durable moved).trans standing.durable,
      congrArg Connection.working moved⟩
  | commit thread failure undo => cases going
  | drop thread undo => cases going

theorem open_after {base data : D} (standing : Open s base data)
    (going : ∀ c ∈ calls, c.ends = false) (reached : after calls s = some s') :
    Open s' base (applied calls data) := by
  induction calls generalizing s data with
  | nil =>
    cases reached
    exact standing
  | cons c calls ih =>
    obtain ⟨result, called, rest⟩ := Option.bind_eq_some_iff.mp reached
    have next := open_call standing (going c List.mem_cons_self) called
    exact ih next (fun c listed => going c (List.mem_cons_of_mem _ listed)) rest

/-- None of a transaction is left and another can begin, or nothing can be done any more. -/
def Abandoned (base : D) (s : ClientStore D) : Prop :=
  s.poisoned = false ∧ s.connection = ⟨base, none⟩ ∧
      (∀ thread, ∃ s', call (.transaction thread false) s = some (.ok (), s')) ∨
    s.poisoned = true ∧ ∀ calls s', after calls s = some s' → Refuses s'

theorem abandoned_released (sound : s.poisoned = false) (free : s.held = none) (base : D) :
    Abandoned base (released s ⟨base, none⟩) := by
  refine .inl ⟨sound, rfl, fun thread => ?_⟩
  have locked : (released s ⟨base, none⟩).lock thread = some (.ok ()) := by
    unfold ClientStore.lock released
    rw [sound, free]
    rfl
  rw [call, ClientStore.transaction, locked]
  exact ⟨_, rfl⟩

theorem abandoned_shut (free : s.held = none) (base : D) (c : Connection D) :
    Abandoned base (shut s c) :=
  .inr ⟨rfl, fun _ _ reached =>
    refuses_of_poisoned (poisoned_after (guarded_shut free c) rfl reached)⟩

end Runs

section Maps

variable {E : Type} (f : D → E)

def ClientStore.map (s : ClientStore D) : ClientStore E :=
  ⟨s.connection.map f, s.held, s.owner, s.poisoned, s.guards⟩

def Call.elsewhere : Call Unit → Call D
  | .transaction thread fails => .transaction thread fails
  | .lock thread => .lock thread
  | .lockProvider thread => .lockProvider thread
  | .release => .release
  | .statement _ => .statement id
  | .commit thread failure undo => .commit thread failure undo
  | .drop thread undo => .drop thread undo

variable {s : ClientStore D} {thread : ThreadId}

theorem dropGuard_map (undo : Option Residue) :
    (s.map f).dropGuard thread undo = (s.dropGuard thread undo).map (ClientStore.map f) := by
  have locked : (s.map f).lock thread = s.lock thread := rfl
  unfold ClientStore.dropGuard
  rw [locked]
  cases s.lock thread with
  | none => rfl
  | some answer =>
    cases answer with
    | error e => rfl
    | ok _ =>
      obtain ⟨⟨durable, _ | data⟩, held, owner, poisoned, guards⟩ := s
      · rfl
      · rcases undo with _ | _ | _ | _ <;> rfl

theorem transaction_map (fails : Bool) : (s.map f).transaction thread fails =
    (s.transaction thread fails).map fun result => (result.1, result.2.map f) := by
  have locked : (s.map f).lock thread = s.lock thread := rfl
  unfold ClientStore.transaction
  rw [locked]
  cases s.lock thread with
  | none => rfl
  | some answer =>
    cases answer with
    | error e => rfl
    | ok _ => obtain ⟨⟨durable, _ | data⟩, held, _ | owner, poisoned, guards⟩ := s <;> cases fails <;> rfl

theorem commit_map (failure undo : Option Residue) : (s.map f).commit thread failure undo =
    (s.commit thread failure undo).map fun result => (result.1, result.2.map f) := by
  have locked : (s.map f).lock thread = s.lock thread := rfl
  have dropped : ∀ (c : Connection D) (e : StoreError),
      ({ s.map f with connection := c.map f }.dropGuard thread undo).map (fun s => (Except.error e, s)) =
        (({ s with connection := c }.dropGuard thread undo).map fun s => (Except.error e, s)).map
          fun result : Except StoreError Unit × ClientStore D => (result.1, result.2.map f) := by
    intro c e
    have inner := @dropGuard_map D E f { s with connection := c } thread undo
    change Option.map _ (ClientStore.dropGuard (ClientStore.map f { s with connection := c }) thread undo) = _
    rw [inner, Option.map_map, Option.map_map]
    rfl
  unfold ClientStore.commit
  rw [locked]
  cases s.lock thread with
  | none => rfl
  | some answer =>
    cases answer with
    | error e => exact dropped s.connection e
    | ok _ =>
      have mapped : (s.map f).connection = s.connection.map f := rfl
      rw [mapped, Connection.commit_map]
      obtain ⟨_ | _, c⟩ := s.connection.commit failure
      · exact dropped c .database
      · rfl

theorem call_map (c : Call Unit) : call (c.elsewhere : Call E) (s.map f) =
    (call (c.elsewhere : Call D) s).map fun result => (result.1, result.2.map f) := by
  cases c with
  | transaction thread fails => exact transaction_map f fails
  | lock thread =>
    change Option.map _ (s.lock thread) = (Option.map _ (s.lock thread)).map _
    rw [Option.map_map]
    refine Option.map_congr fun answer _ => ?_
    dsimp only [Function.comp_apply]
    split <;> rfl
  | lockProvider thread =>
    change Option.map _ s.lockProvider = (Option.map _ s.lockProvider).map _
    rw [Option.map_map]
    refine Option.map_congr fun answer _ => ?_
    dsimp only [Function.comp_apply]
    split <;> rfl
  | release =>
    change Option.map _ s.held = (Option.map _ s.held).map _
    rw [Option.map_map]
    rfl
  | statement g =>
    change Option.map _ s.held = (Option.map _ s.held).map _
    rw [Option.map_map]
    refine Option.map_congr fun _ _ => ?_
    have same := @Connection.execute_map D s.connection E f id id fun _ => rfl
    exact congrArg (fun c => (Except.ok (), ClientStore.mk c s.held s.owner s.poisoned s.guards)) same
  | commit thread failure undo =>
    change (if thread ∈ s.guards then _ else none) = Option.map _ (if thread ∈ s.guards then _ else none)
    split
    · exact commit_map f failure undo
    · rfl
  | drop thread undo =>
    change (if thread ∈ s.guards then _ else none) = Option.map _ (if thread ∈ s.guards then _ else none)
    split
    · rw [dropGuard_map, Option.map_map, Option.map_map]
      rfl
    · rfl

end Maps

/-- The guard over every sequence of calls: the owner is set while a transaction is open; transactions do
not nest, and only the owner gets the connection by `lock`; a commit that succeeds makes all statements
since the beginning durable; one that fails, or a drop, leaves none of them, or closes the store. -/
theorem transaction_guard (data : D) {before : List (Call D)} {s : ClientStore D}
    (reached : after before (opened data) = some s) :
    (s.poisoned = false → (s.owner.isSome = true ↔ s.connection.working.isSome = true)) ∧
    s.guards.length ≤ 1 ∧
    (s.connection.working.isSome = true → ∀ thread fails answer s',
      call (.transaction thread fails) s = some (answer, s') → (∃ e, answer = .error e) ∧ s' = s) ∧
    (∀ owner, s.owner = some owner → s.connection.working.isSome = true →
      (∀ thread, s.held = some (thread, .lock) → thread = owner) ∧
      ∀ thread answer s', thread ≠ owner → call (.lock thread) s = some (answer, s') →
        (∃ e, answer = .error e) ∧ s' = s) ∧
    ∀ thread fails s₁ calls s₂, call (.transaction thread fails) s = some (.ok (), s₁) →
      (∀ c ∈ calls, c.ends = false) → after calls s₁ = some s₂ →
      (∀ failure undo answer s₃, call (.commit thread failure undo) s₂ = some (answer, s₃) →
        (answer = .ok () → s₃.connection = ⟨applied calls s.connection.durable, none⟩) ∧
        ∀ e, answer = .error e → Abandoned s.connection.durable s₃) ∧
      ∀ undo answer s₃, call (.drop thread undo) s₂ = some (answer, s₃) →
        Abandoned s.connection.durable s₃ := by
  have guarded := guarded_after (guarded_opened data) reached
  refine ⟨fun sound => by rw [guarded.owned sound], ?_, ?_, ?_, ?_⟩
  · cases poisoned : s.poisoned with
    | true => simp [guarded.closed poisoned]
    | false =>
      rw [guarded.live poisoned]
      cases s.owner <;> simp
  · intro standing thread fails answer s' called
    rcases transaction_cases called with refused | ⟨-, -, -, -, idle, -⟩
    · exact refused
    · rw [idle] at standing
      cases standing
  · intro owner owned standing
    refine ⟨fun thread taken => ?_, fun thread answer s' apart called => ?_⟩
    · rcases guarded.keeper thread taken with unowned | own
      · cases owned.symm.trans unowned
      · exact (Option.some.inj (owned.symm.trans own)).symm
    · obtain ⟨locked, granted, result⟩ := Option.map_eq_some_iff.mp called
      rcases lock_cases granted with ⟨-, rfl⟩ | ⟨-, -, ⟨-, ⟨e, rfl⟩⟩ | ⟨unowned | own, -⟩⟩
      · cases result
        exact ⟨⟨_, rfl⟩, rfl⟩
      · cases result
        exact ⟨⟨_, rfl⟩, rfl⟩
      · cases owned.symm.trans unowned
      · exact absurd (Option.some.inj (own.symm.trans owned)) apart
  · intro thread fails s₁ calls s₂ begun going ran
    have standing₁ : Open s₁ s.connection.durable s.connection.durable := by
      rcases transaction_cases begun with ⟨⟨e, failed⟩, -⟩ | ⟨-, sound, -, -, -, rfl⟩
      · cases failed
      · exact ⟨sound, rfl, rfl⟩
    have standing₂ := open_after standing₁ going ran
    have guarded₂ := guarded_after (guarded_call guarded begun) ran
    constructor
    · intro failure undo answer s₃ called
      obtain ⟨listed, called⟩ := Option.ite_none_right_eq_some.mp called
      have owned := guarded₂.owner_of_mem listed
      obtain ⟨free, ⟨final, working, rfl, rfl⟩ | ⟨⟨e, rfl⟩, left⟩⟩ := commit_cases owned called
      · obtain rfl := Option.some.inj (standing₂.working.symm.trans working)
        exact ⟨fun _ => rfl, fun e failed => by cases failed⟩
      · refine ⟨fun done => (by cases done), fun _ _ => ?_⟩
        rcases left with ⟨-, rfl⟩ | ⟨c, rfl⟩
        · rw [standing₂.durable]
          exact abandoned_released owned.sound free _
        · exact abandoned_shut free _ c
    · intro undo answer s₃ called
      obtain ⟨listed, called⟩ := Option.ite_none_right_eq_some.mp called
      have owned := guarded₂.owner_of_mem listed
      obtain ⟨left, dropped, result⟩ := Option.map_eq_some_iff.mp called
      cases result
      obtain ⟨free, ⟨-, rfl⟩ | ⟨c, rfl⟩⟩ := dropGuard_cases owned dropped
      · rw [standing₂.durable]
        exact abandoned_released owned.sound free _
      · exact abandoned_shut free _ c

def writing : ClientStore Nat := ⟨⟨0, some 1⟩, some (1, .lock), some 1, false, [1]⟩

theorem transaction_guard_writing :
    after [.transaction 1 false, .lock 1, .statement (· + 1)] (opened 0) = some writing ∧
      (writing.owner.isSome = true ↔ writing.connection.working.isSome = true) :=
  have reached : after [.transaction 1 false, .lock 1, .statement (· + 1)] (opened 0) = some writing := rfl
  ⟨reached, (transaction_guard 0 reached).1 rfl⟩

end Grotto.Client.Guard
