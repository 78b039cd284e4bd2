/- GID: Grotto/Relay/Registrations
   digest: The connection hub between the half-steps of concurrent tasks: one live registration for each
   identity, and removals that hit no other. -/

import Grotto.Base.Keyed
import Grotto.Relay.Hub
import Mathlib.Data.List.Count
import Mathlib.Data.List.Perm.Basic

set_option autoImplicit false

namespace Grotto.Relay.Registrations

open Base.Keyed Protocol.Records

/-- A channel's sender, by the order in which the channels are made. -/
abbrev Sender := Nat

structure Target where
  user : UserId
  id : UInt64
  sender : Sender
  deriving DecidableEq

structure ConnectionHub where
  activeIdentities : List UserId
  nextConnectionId : UInt64
  connections : List (UserId × List (UInt64 × Sender))

namespace ConnectionHub

variable (hub : ConnectionHub)

/-- `active_identities.insert(user)`: whether the user was not in it. -/
def insertIdentity (user : UserId) : Bool × ConnectionHub :=
  if user ∈ hub.activeIdentities then (false, hub)
  else (true, { hub with activeIdentities := user :: hub.activeIdentities })

/-- The first step of `register`. -/
def beginRegister (user : UserId) : Except String ConnectionHub :=
  match hub.insertIdentity user with
  | (false, _) => .error "identity already has an active session"
  | (true, hub) => .ok hub

/-- `active_identities.remove(user)`. -/
def removeIdentity (user : UserId) : ConnectionHub :=
  { hub with activeIdentities := hub.activeIdentities.filter fun other => decide (other ≠ user) }

/-- `next_connection_id.fetch_add(1)`. -/
def fetchAdd : UInt64 × ConnectionHub :=
  (hub.nextConnectionId, { hub with nextConnectionId := hub.nextConnectionId + 1 })

/-- `connections.entry(user).or_default().insert(id, sender)`. -/
def insertConnection (target : Target) : ConnectionHub :=
  let own := (hub.connections.lookup target.user).getD []
  { hub with connections := upsert target.user (upsert target.id target.sender own) hub.connections }

end ConnectionHub

/-- The removal that evictions and drops share; a user's empty map is removed with it. -/
def remove (connections : List (UserId × List (UInt64 × Sender))) (user : UserId) (id : UInt64) :
    List (UserId × List (UInt64 × Sender)) :=
  match connections.lookup user with
  | none => connections
  | some own =>
    let rest := own.filter fun entry => decide (entry.1 ≠ id)
    if rest = [] then connections.filter fun entry => decide (entry.1 ≠ user)
    else upsert user rest connections

namespace ConnectionHub

variable (hub : ConnectionHub)

def unregister (user : UserId) (id : UInt64) : ConnectionHub :=
  { hub with connections := remove hub.connections user id }

/-- The targets of `notify`, copied under the lock. -/
def snapshot (recipients : List UserId) : List Target :=
  recipients.flatMap fun user =>
    ((hub.connections.lookup user).getD []).map fun entry => ⟨user, entry.1, entry.2⟩

/-- The evictions of `notify`, under the lock again. -/
def evict (failed : List Target) : ConnectionHub :=
  { hub with connections :=
      failed.foldl (fun connections target => remove connections target.user target.id) hub.connections }

end ConnectionHub

inductive Task
  | registering (user : UserId)
  | numbered (target : Target)
  | registered (target : Target)
  | dropping (user : UserId)
  | notifying (targets : List Target)
  | evicting (failed : List Target)
  deriving DecidableEq

/-- The hub, the channels made so far, and the tasks that are under way or hold a registration. -/
structure State where
  hub : ConnectionHub
  created : Nat
  tasks : List Task

def initial : State := ⟨⟨[], 0, []⟩, 0, []⟩

inductive Event
  | register (user : UserId)
  | number (user : UserId)
  | connect (target : Target)
  | notify (recipients : List UserId)
  | send (targets failed : List Target)
  | evict (failed : List Target)
  | drop (target : Target)
  | release (user : UserId)

/-- One step; `none` if no task is there to take it. -/
def step : Event → State → Option State
  | .register user, s =>
    match s.hub.beginRegister user with
    | .error _ => some s
    | .ok hub => some { s with hub := hub, tasks := .registering user :: s.tasks }
  | .number user, s =>
    if .registering user ∈ s.tasks then
      some { hub := s.hub.fetchAdd.2, created := s.created + 1,
             tasks := .numbered ⟨user, s.hub.fetchAdd.1, s.created⟩ :: s.tasks.erase (.registering user) }
    else none
  | .connect target, s =>
    if .numbered target ∈ s.tasks then
      some { s with hub := s.hub.insertConnection target,
                    tasks := .registered target :: s.tasks.erase (.numbered target) }
    else none
  | .notify recipients, s => some { s with tasks := .notifying (s.hub.snapshot recipients) :: s.tasks }
  | .send targets failed, s =>
    -- which sends fail depends on the channels; any of them may
    if .notifying targets ∈ s.tasks ∧ failed.Sublist targets then
      if failed = [] then some { s with tasks := s.tasks.erase (.notifying targets) }
      else some { s with tasks := .evicting failed :: s.tasks.erase (.notifying targets) }
    else none
  | .evict failed, s =>
    if .evicting failed ∈ s.tasks then
      some { s with hub := s.hub.evict failed, tasks := s.tasks.erase (.evicting failed) }
    else none
  | .drop target, s =>
    if .registered target ∈ s.tasks then
      some { s with hub := s.hub.unregister target.user target.id,
                    tasks := .dropping target.user :: s.tasks.erase (.registered target) }
    else none
  | .release user, s =>
    if .dropping user ∈ s.tasks then
      some { s with hub := s.hub.removeIdentity user, tasks := s.tasks.erase (.dropping user) }
    else none

def run : List Event → State → Option State
  | [], s => some s
  | event :: events, s => (step event s).bind (run events)

variable {user : UserId} {failed : List Target}

section Removal

variable {connections : List (UserId × List (UInt64 × Sender))}

def senderOf (connections : List (UserId × List (UInt64 × Sender))) (user : UserId) (id : UInt64) :
    Option Sender :=
  (connections.lookup user).bind fun own => own.lookup id

theorem senderOf_remove {user other : UserId} {id another : UInt64} :
    senderOf (remove connections user id) other another =
      if other = user ∧ another = id then none else senderOf connections other another := by
  unfold senderOf remove
  cases found : connections.lookup user with
  | none =>
    dsimp only
    split
    · rename_i here
      rw [here.1, found]
      rfl
    · rfl
  | some own =>
    have left : ∀ another, (own.filter fun entry => decide (entry.1 ≠ id)).lookup another =
        if another = id then none else own.lookup another := fun another => lookup_filter
    dsimp only
    by_cases same : other = user
    · subst same
      rw [found]
      split
      · rename_i empty
        rw [lookup_filter, if_pos rfl]
        have none := left another
        rw [empty, List.lookup_nil] at none
        simpa using none
      · rw [lookup_upsert, if_pos rfl]
        simpa using left another
    · have apart : ¬(other = user ∧ another = id) := fun both => same both.1
      rw [if_neg apart]
      split
      · rw [lookup_filter, if_neg same]
      · rw [lookup_upsert, if_neg same]

theorem senderOf_evict {id : UInt64} :
    senderOf (failed.foldl (fun connections target => remove connections target.user target.id)
        connections) user id =
      if ∃ target ∈ failed, user = target.user ∧ id = target.id then none
      else senderOf connections user id := by
  induction failed generalizing connections with
  | nil => simp
  | cons target failed ih =>
    rw [List.foldl_cons, ih, senderOf_remove]
    simp only [List.mem_cons, exists_eq_or_imp]
    split <;> split <;> simp_all

theorem lookup_remove {user other : UserId} {id : UInt64} {own : List (UInt64 × Sender)}
    (single : ∀ own, connections.lookup user = some own → ∃ entry, own = [entry])
    (kept : (remove connections user id).lookup other = some own) :
    connections.lookup other = some own ∧ (other = user → ∀ entry ∈ own, entry.1 ≠ id) := by
  unfold remove at kept
  cases found : connections.lookup user with
  | none =>
    rw [found] at kept
    refine ⟨kept, fun same => ?_⟩
    rw [same, found] at kept
    cases kept
  | some present =>
    obtain ⟨entry, rfl⟩ := single present found
    rw [found] at kept
    dsimp only at kept
    by_cases hit : entry.1 = id
    · have rest : ([entry].filter fun entry => decide (entry.1 ≠ id)) = [] := by simp [hit]
      rw [rest, if_pos rfl, lookup_filter] at kept
      split at kept
      · cases kept
      · rename_i apart
        exact ⟨kept, fun same => absurd same apart⟩
    · have rest : ([entry].filter fun entry => decide (entry.1 ≠ id)) = [entry] := by simp [hit]
      rw [rest, if_neg (List.cons_ne_nil _ _), lookup_upsert] at kept
      split at kept
      · rename_i same
        cases kept
        refine ⟨by rw [same, found], fun _ other listed => ?_⟩
        rwa [List.mem_singleton.mp listed]
      · rename_i apart
        exact ⟨kept, fun same => absurd same apart⟩

theorem lookup_evict {own : List (UInt64 × Sender)}
    (single : ∀ user own, connections.lookup user = some own → ∃ entry, own = [entry])
    (kept : (failed.foldl (fun connections target => remove connections target.user target.id)
      connections).lookup user = some own) : connections.lookup user = some own := by
  induction failed generalizing connections with
  | nil => exact kept
  | cons target failed ih =>
    have before := fun {user own} => @lookup_remove connections target.user user target.id own
      (single target.user)
    exact (before (ih (fun user own found => single user own (before found).1) kept)).1

end Removal

variable {target : Target}

section Invariant

variable {s s' : State} {event : Event}

def Task.holder : Task → Option UserId
  | .registering user => some user
  | .numbered target => some target.user
  | .registered target => some target.user
  | .dropping user => some user
  | .notifying _ => none
  | .evicting _ => none

def Task.targets : Task → List Target
  | .numbered target => [target]
  | .registered target => [target]
  | .notifying targets => targets
  | .evicting failed => failed
  | .registering _ => []
  | .dropping _ => []

def State.holders (s : State) : List UserId := s.tasks.filterMap Task.holder

structure Consistent (s : State) : Prop where
  unique : s.holders.Nodup
  active : ∀ user, user ∈ s.hub.activeIdentities ↔ user ∈ s.holders
  next : s.hub.nextConnectionId = UInt64.ofNat s.created
  issued : ∀ task ∈ s.tasks, ∀ target ∈ task.targets,
    target.id = UInt64.ofNat target.sender ∧ target.sender < s.created
  connected : ∀ user own, s.hub.connections.lookup user = some own →
    ∃ target, .registered target ∈ s.tasks ∧ target.user = user ∧ own = [(target.id, target.sender)]

theorem consistent_initial : Consistent initial where
  unique := List.nodup_nil
  active _ := Iff.rfl
  next := rfl
  issued _ listed := absurd listed List.not_mem_nil
  connected _ _ found := by cases found

theorem Consistent.single (consistent : Consistent s) (user : UserId) (own : List (UInt64 × Sender))
    (found : s.hub.connections.lookup user = some own) : ∃ entry, own = [entry] := by
  obtain ⟨target, -, -, rfl⟩ := consistent.connected user own found
  exact ⟨_, rfl⟩

theorem holders_erase {old : Task} (listed : old ∈ s.tasks) :
    s.holders.Perm (old.holder.toList ++ (s.tasks.erase old).filterMap Task.holder) := by
  have perm := (List.perm_cons_erase listed).filterMap Task.holder
  refine perm.trans (List.Perm.of_eq ?_)
  cases held : old.holder with
  | none => rw [List.filterMap_cons_none held]; rfl
  | some user => rw [List.filterMap_cons_some held]; rfl

theorem holders_replace {old new : Task} (listed : old ∈ s.tasks) (same : new.holder = old.holder) :
    ((new :: s.tasks.erase old).filterMap Task.holder).Perm s.holders := by
  refine List.Perm.trans (List.Perm.of_eq ?_) (holders_erase listed).symm
  cases held : new.holder with
  | none => rw [List.filterMap_cons_none held, ← same, held]; rfl
  | some user => rw [List.filterMap_cons_some held, ← same, held]; rfl

theorem Consistent.holder_unique (consistent : Consistent s) {task other : Task} (listed : task ∈ s.tasks)
    (another : other ∈ s.tasks) (held : task.holder = some user) (same : other.holder = some user) :
    task = other := by
  by_contra apart
  have left : other ∈ s.tasks.erase task := (List.mem_erase_of_ne (Ne.symm apart)).mpr another
  have perm := (holders_erase listed).nodup_iff.mp consistent.unique
  rw [held] at perm
  exact (List.nodup_cons.mp perm).1 (List.mem_filterMap.mpr ⟨other, left, same⟩)

theorem Consistent.tasks (consistent : Consistent s) {tasks : List Task}
    (perm : (tasks.filterMap Task.holder).Perm s.holders)
    (known : ∀ task ∈ tasks, ∀ target ∈ task.targets,
      target.id = UInt64.ofNat target.sender ∧ target.sender < s.created)
    (live : ∀ target, .registered target ∈ s.tasks → .registered target ∈ tasks) :
    Consistent { s with tasks := tasks } where
  unique := perm.nodup_iff.mpr consistent.unique
  active user := (consistent.active user).trans perm.mem_iff.symm
  next := consistent.next
  issued := known
  connected user own found := by
    obtain ⟨target, listed, same⟩ := consistent.connected user own found
    exact ⟨target, live target listed, same⟩

inductive Effect (s : State) : Event → State → Prop
  | refused {user : UserId} (present : user ∈ s.hub.activeIdentities) : Effect s (.register user) s
  | entered {user : UserId} (absent : user ∉ s.hub.activeIdentities) :
      Effect s (.register user) { s with
        hub := { s.hub with activeIdentities := user :: s.hub.activeIdentities },
        tasks := .registering user :: s.tasks }
  | numbered {user : UserId} (listed : .registering user ∈ s.tasks) :
      Effect s (.number user) {
        hub := s.hub.fetchAdd.2, created := s.created + 1,
        tasks := .numbered ⟨user, s.hub.nextConnectionId, s.created⟩ :: s.tasks.erase (.registering user) }
  | connected {target : Target} (listed : .numbered target ∈ s.tasks) :
      Effect s (.connect target) { s with
        hub := s.hub.insertConnection target,
        tasks := .registered target :: s.tasks.erase (.numbered target) }
  | copied {recipients : List UserId} :
      Effect s (.notify recipients) { s with
        tasks := .notifying (s.hub.snapshot recipients) :: s.tasks }
  | delivered {targets : List Target} (listed : .notifying targets ∈ s.tasks) :
      Effect s (.send targets []) { s with tasks := s.tasks.erase (.notifying targets) }
  | failed {targets failed : List Target} (listed : .notifying targets ∈ s.tasks)
      (among : failed.Sublist targets) :
      Effect s (.send targets failed) { s with
        tasks := .evicting failed :: s.tasks.erase (.notifying targets) }
  | evicted {failed : List Target} (listed : .evicting failed ∈ s.tasks) :
      Effect s (.evict failed) { s with
        hub := s.hub.evict failed, tasks := s.tasks.erase (.evicting failed) }
  | dropped {target : Target} (listed : .registered target ∈ s.tasks) :
      Effect s (.drop target) { s with
        hub := s.hub.unregister target.user target.id,
        tasks := .dropping target.user :: s.tasks.erase (.registered target) }
  | released {user : UserId} (listed : .dropping user ∈ s.tasks) :
      Effect s (.release user) { s with
        hub := s.hub.removeIdentity user, tasks := s.tasks.erase (.dropping user) }

theorem step_effect (taken : step event s = some s') : Effect s event s' := by
  cases event with
  | register user =>
    rw [step, ConnectionHub.beginRegister, ConnectionHub.insertIdentity] at taken
    by_cases present : user ∈ s.hub.activeIdentities
    · rw [if_pos present] at taken
      cases taken
      exact .refused present
    · rw [if_neg present] at taken
      cases taken
      exact .entered present
  | number user =>
    obtain ⟨listed, taken⟩ := Option.ite_none_right_eq_some.mp taken
    cases taken
    exact .numbered listed
  | connect target =>
    obtain ⟨listed, taken⟩ := Option.ite_none_right_eq_some.mp taken
    cases taken
    exact .connected listed
  | notify recipients =>
    cases taken
    exact .copied
  | send targets failed =>
    obtain ⟨⟨listed, among⟩, taken⟩ := Option.ite_none_right_eq_some.mp taken
    split at taken
    · rename_i none
      cases taken
      rw [none]
      exact .delivered listed
    · cases taken
      exact .failed listed among
  | evict failed =>
    obtain ⟨listed, taken⟩ := Option.ite_none_right_eq_some.mp taken
    cases taken
    exact .evicted listed
  | drop target =>
    obtain ⟨listed, taken⟩ := Option.ite_none_right_eq_some.mp taken
    cases taken
    exact .dropped listed
  | release user =>
    obtain ⟨listed, taken⟩ := Option.ite_none_right_eq_some.mp taken
    cases taken
    exact .released listed

theorem Consistent.issued_erase (consistent : Consistent s) (old : Task) : ∀ task ∈ s.tasks.erase old,
    ∀ target ∈ task.targets, target.id = UInt64.ofNat target.sender ∧ target.sender < s.created :=
  fun task listed => consistent.issued task (List.mem_of_mem_erase listed)

theorem Consistent.issued_cons (consistent : Consistent s) {old new : Task} (known : ∀ target ∈ new.targets,
      target.id = UInt64.ofNat target.sender ∧ target.sender < s.created) :
    ∀ task ∈ new :: s.tasks.erase old, ∀ target ∈ task.targets,
      target.id = UInt64.ofNat target.sender ∧ target.sender < s.created := by
  intro task listed
  rcases List.mem_cons.mp listed with rfl | listed
  · exact known
  · exact consistent.issued_erase old task listed

theorem registered_erase {old : Task} (apart : old ≠ .registered target)
    (listed : .registered target ∈ s.tasks) : .registered target ∈ s.tasks.erase old :=
  (List.mem_erase_of_ne (Ne.symm apart)).mpr listed

theorem Consistent.snapshot (consistent : Consistent s) {recipients : List UserId}
    (copied : target ∈ s.hub.snapshot recipients) : .registered target ∈ s.tasks := by
  obtain ⟨user, -, listed⟩ := List.mem_flatMap.mp copied
  obtain ⟨entry, present, rfl⟩ := List.mem_map.mp listed
  cases found : s.hub.connections.lookup user with
  | none =>
    rw [found] at present
    exact absurd present List.not_mem_nil
  | some own =>
    obtain ⟨target, live, rfl, rfl⟩ := consistent.connected user own found
    rw [found] at present
    rw [List.mem_singleton.mp present]
    exact live

theorem Consistent.enter (consistent : Consistent s) (absent : user ∉ s.hub.activeIdentities) :
    Consistent { s with hub := { s.hub with activeIdentities := user :: s.hub.activeIdentities },
                        tasks := .registering user :: s.tasks } := by
  have fresh : user ∉ s.holders := fun held => absent ((consistent.active user).mpr held)
  refine ⟨List.nodup_cons.mpr ⟨fresh, consistent.unique⟩, fun other => ?_, consistent.next, ?_, ?_⟩
  · change other ∈ user :: s.hub.activeIdentities ↔ other ∈ user :: s.holders
    rw [List.mem_cons, List.mem_cons, consistent.active other]
  · intro task listed
    rcases List.mem_cons.mp listed with rfl | listed
    · exact fun target known => absurd known List.not_mem_nil
    · exact consistent.issued task listed
  · intro other own found
    obtain ⟨target, live, same⟩ := consistent.connected other own found
    exact ⟨target, List.mem_cons_of_mem _ live, same⟩

theorem Consistent.number (consistent : Consistent s) (listed : .registering user ∈ s.tasks) :
    Consistent { hub := s.hub.fetchAdd.2, created := s.created + 1,
                 tasks := .numbered ⟨user, s.hub.nextConnectionId, s.created⟩ ::
                   s.tasks.erase (.registering user) } := by
  have perm := @holders_replace s (.registering user)
    (.numbered ⟨user, s.hub.nextConnectionId, s.created⟩) listed rfl
  refine ⟨perm.nodup_iff.mpr consistent.unique, fun other => ?_, ?_, ?_, ?_⟩
  · exact (consistent.active other).trans perm.mem_iff.symm
  · change s.hub.nextConnectionId + 1 = UInt64.ofNat (s.created + 1)
    rw [consistent.next, UInt64.ofNat_add]
    rfl
  · intro task present
    rcases List.mem_cons.mp present with rfl | present
    · intro target known
      rw [List.mem_singleton.mp known]
      exact ⟨consistent.next, Nat.lt_succ_self _⟩
    · intro target known
      obtain ⟨named, less⟩ := consistent.issued_erase _ task present target known
      exact ⟨named, Nat.lt_succ_of_lt less⟩
  · intro other own found
    obtain ⟨target, live, same⟩ := consistent.connected other own found
    exact ⟨target, List.mem_cons_of_mem _ (registered_erase (by intro equal; cases equal) live), same⟩

theorem Consistent.lookup_of_numbered (consistent : Consistent s) (listed : .numbered target ∈ s.tasks) :
    s.hub.connections.lookup target.user = none := by
  cases found : s.hub.connections.lookup target.user with
  | none => rfl
  | some own =>
    obtain ⟨other, live, same, -⟩ := consistent.connected _ _ found
    have one := consistent.holder_unique live listed (congrArg some same) rfl
    cases one

theorem Consistent.connect (consistent : Consistent s) (listed : .numbered target ∈ s.tasks) :
    Consistent { s with hub := s.hub.insertConnection target,
                        tasks := .registered target :: s.tasks.erase (.numbered target) } := by
  have perm := @holders_replace s (.numbered target) (.registered target) listed rfl
  refine ⟨perm.nodup_iff.mpr consistent.unique, fun other => ?_, consistent.next, ?_, ?_⟩
  · exact (consistent.active other).trans perm.mem_iff.symm
  · exact consistent.issued_cons (consistent.issued (.numbered target) listed)
  intro other own found
  change (upsert target.user (upsert target.id target.sender
    ((s.hub.connections.lookup target.user).getD [])) s.hub.connections).lookup other = some own at found
  rw [lookup_upsert, consistent.lookup_of_numbered listed] at found
  split at found
  · rename_i same
    cases found
    exact ⟨target, List.mem_cons_self, same.symm, rfl⟩
  · obtain ⟨present, live, same⟩ := consistent.connected other own found
    exact ⟨present, List.mem_cons_of_mem _ (registered_erase (by intro equal; cases equal) live), same⟩

theorem Consistent.evict (consistent : Consistent s) (listed : .evicting failed ∈ s.tasks) :
    Consistent { s with hub := s.hub.evict failed, tasks := s.tasks.erase (.evicting failed) } := by
  have perm := (holders_erase listed).symm
  refine ⟨perm.nodup_iff.mpr consistent.unique, fun other => ?_, consistent.next,
    consistent.issued_erase _, ?_⟩
  · exact (consistent.active other).trans perm.mem_iff.symm
  · intro other own found
    obtain ⟨target, live, same⟩ := consistent.connected other own (lookup_evict consistent.single found)
    exact ⟨target, registered_erase (by intro equal; cases equal) live, same⟩

theorem Consistent.drop (consistent : Consistent s) (listed : .registered target ∈ s.tasks) :
    Consistent { s with hub := s.hub.unregister target.user target.id,
                        tasks := .dropping target.user :: s.tasks.erase (.registered target) } := by
  have perm := @holders_replace s (.registered target) (.dropping target.user) listed rfl
  refine ⟨perm.nodup_iff.mpr consistent.unique, fun other => ?_, consistent.next, ?_, ?_⟩
  · exact (consistent.active other).trans perm.mem_iff.symm
  · exact consistent.issued_cons fun _ known => absurd known List.not_mem_nil
  intro other own found
  obtain ⟨before, kept⟩ := lookup_remove (consistent.single target.user) found
  obtain ⟨present, live, same, rfl⟩ := consistent.connected other own before
  -- the user's own entry is the one that was removed
  have apart : present ≠ target := by
    rintro rfl
    exact kept same.symm _ List.mem_cons_self rfl
  refine ⟨present, List.mem_cons_of_mem _ (registered_erase ?_ live), same, rfl⟩
  intro equal
  cases equal
  exact apart rfl

theorem Consistent.release (consistent : Consistent s) (listed : .dropping user ∈ s.tasks) :
    Consistent { s with hub := s.hub.removeIdentity user, tasks := s.tasks.erase (.dropping user) } := by
  have perm := holders_erase listed
  have distinct := perm.nodup_iff.mp consistent.unique
  obtain ⟨gone, rest⟩ := List.nodup_cons.mp distinct
  refine ⟨rest, fun other => ?_, consistent.next, consistent.issued_erase _, ?_⟩
  · change other ∈ s.hub.activeIdentities.filter _ ↔ other ∈ (s.tasks.erase _).filterMap Task.holder
    rw [List.mem_filter, decide_eq_true_eq, consistent.active, perm.mem_iff]
    change other ∈ user :: _ ∧ other ≠ user ↔ _
    rw [List.mem_cons]
    constructor
    · rintro ⟨rfl | held, apart⟩
      · exact absurd rfl apart
      · exact held
    · intro held
      exact ⟨.inr held, fun same => gone (same ▸ held)⟩
  · intro other own found
    obtain ⟨target, live, same⟩ := consistent.connected other own found
    exact ⟨target, registered_erase (by intro equal; cases equal) live, same⟩

theorem consistent_step (consistent : Consistent s) (taken : step event s = some s') : Consistent s' := by
  cases step_effect taken with
  | refused => exact consistent
  | entered absent => exact consistent.enter absent
  | numbered listed => exact consistent.number listed
  | connected listed => exact consistent.connect listed
  | copied =>
    refine consistent.tasks (List.Perm.refl _) (fun task listed => ?_)
      fun _ live => List.mem_cons_of_mem _ live
    rcases List.mem_cons.mp listed with rfl | listed
    · exact fun target copied => consistent.issued _ (consistent.snapshot copied) target List.mem_cons_self
    · exact consistent.issued task listed
  | delivered listed =>
    exact consistent.tasks (holders_erase listed).symm (consistent.issued_erase _) fun _ live =>
      registered_erase (by intro equal; cases equal) live
  | failed listed among =>
    refine consistent.tasks (holders_replace listed rfl) (consistent.issued_cons fun target known => ?_)
      fun _ live => List.mem_cons_of_mem _ (registered_erase (by intro equal; cases equal) live)
    exact consistent.issued _ listed target (among.subset known)
  | evicted listed => exact consistent.evict listed
  | dropped listed => exact consistent.drop listed
  | released listed => exact consistent.release listed

theorem consistent_run {events : List Event} (consistent : Consistent s)
    (reached : run events s = some s') : Consistent s' := by
  induction events generalizing s with
  | nil =>
    cases reached
    exact consistent
  | cons event events ih =>
    obtain ⟨next, taken, rest⟩ := Option.bind_eq_some_iff.mp reached
    exact ih (consistent_step consistent taken) rest

end Invariant

section Results

variable {s s' : State}

def Task.registration (user : UserId) : Task → Option Target
  | .registered target => if target.user = user then some target else none
  | _ => none

def State.live (s : State) (user : UserId) : List Target := s.tasks.filterMap (Task.registration user)

theorem registration_some {task : Task} :
    task.registration user = some target ↔ task = .registered target ∧ target.user = user := by
  cases task with
  | registered present =>
    rw [Task.registration, Option.ite_none_right_eq_some, Task.registered.injEq]
    constructor
    · rintro ⟨same, equal⟩
      cases equal
      exact ⟨rfl, same⟩
    · rintro ⟨rfl, same⟩
      exact ⟨same, rfl⟩
  | _ => simp [Task.registration]

theorem mem_live : target ∈ s.live user ↔ .registered target ∈ s.tasks ∧ target.user = user := by
  unfold State.live
  rw [List.mem_filterMap]
  constructor
  · rintro ⟨task, listed, found⟩
    obtain ⟨rfl, same⟩ := registration_some.mp found
    exact ⟨listed, same⟩
  · rintro ⟨listed, same⟩
    exact ⟨_, listed, registration_some.mpr ⟨rfl, same⟩⟩

theorem length_live (user : UserId) : (s.live user).length ≤ s.holders.count user := by
  unfold State.live State.holders
  induction s.tasks with
  | nil => exact Nat.le_refl 0
  | cons task tasks ih =>
    cases found : task.registration user with
    | some target =>
      obtain ⟨rfl, same⟩ := registration_some.mp found
      have held : (Task.registered target).holder = some user := congrArg some same
      rw [List.filterMap_cons_some found, List.filterMap_cons_some held, List.count_cons_self]
      exact Nat.succ_le_succ ih
    | none =>
      rw [List.filterMap_cons_none found]
      cases held : task.holder with
      | none => rwa [List.filterMap_cons_none held]
      | some other =>
        rw [List.filterMap_cons_some held]
        exact Nat.le_trans ih List.count_le_count_cons

theorem sender_unique {target other : Target} (bounded : s.created ≤ 2 ^ 64)
    (known : target.id = UInt64.ofNat target.sender ∧ target.sender < s.created)
    (named : other.id = UInt64.ofNat other.sender ∧ other.sender < s.created)
    (same : target.id = other.id) : target.sender = other.sender := by
  have equal := congrArg UInt64.toNat (known.1.symm.trans (same.trans named.1))
  rwa [UInt64.toNat_ofNat_of_lt' (Nat.lt_of_lt_of_le known.2 bounded),
    UInt64.toNat_ofNat_of_lt' (Nat.lt_of_lt_of_le named.2 bounded)] at equal

theorem Consistent.registered_of_sender (consistent : Consistent s)
    (found : senderOf s.hub.connections target.user target.id = some target.sender) :
    .registered target ∈ s.tasks := by
  obtain ⟨own, present, listed⟩ := Option.bind_eq_some_iff.mp found
  obtain ⟨live, registered, same, rfl⟩ := consistent.connected _ _ present
  rw [lookup_cons_ite, List.lookup_nil] at listed
  obtain ⟨id, sender⟩ := Option.ite_none_right_eq_some.mp listed
  cases live
  cases target
  simp_all

/-- A step removes a sender only as the eviction of that very connection or the drop of its registration. -/
theorem Consistent.removed (consistent : Consistent s) (bounded : s.created ≤ 2 ^ 64) {event : Event}
    (taken : step event s = some s')
    (found : senderOf s.hub.connections target.user target.id = some target.sender)
    (lost : senderOf s'.hub.connections target.user target.id ≠ some target.sender) :
    (∃ failed, event = .evict failed ∧ target ∈ failed) ∨ event = .drop target := by
  have live := consistent.registered_of_sender found
  cases step_effect taken with
  | refused => exact absurd found lost
  | entered => exact absurd found lost
  | numbered => exact absurd found lost
  | copied => exact absurd found lost
  | delivered => exact absurd found lost
  | failed => exact absurd found lost
  | released => exact absurd found lost
  | connected listed =>
    rename_i other
    -- another user's entry, since this one is registered already
    have apart : target.user ≠ other.user := by
      intro same
      obtain ⟨own, present, -⟩ := Option.bind_eq_some_iff.mp found
      rw [same, consistent.lookup_of_numbered listed] at present
      cases present
    refine absurd ?_ lost
    change ((upsert other.user _ s.hub.connections).lookup target.user).bind _ = _
    rwa [lookup_upsert, if_neg apart]
  | evicted listed =>
    rename_i failed
    refine .inl ⟨failed, rfl, ?_⟩
    have gone := lost
    change senderOf (failed.foldl _ _) target.user target.id ≠ _ at gone
    rw [senderOf_evict] at gone
    split at gone
    · rename_i hit
      obtain ⟨other, member, user, id⟩ := hit
      have sender := sender_unique bounded (consistent.issued _ live target List.mem_cons_self)
        (consistent.issued _ listed other member) id
      have same : target = other := by
        cases target
        cases other
        simp_all
      rwa [same]
    · exact absurd found gone
  | dropped listed =>
    rename_i other
    refine .inr ?_
    have gone := lost
    change senderOf (remove _ other.user other.id) target.user target.id ≠ _ at gone
    rw [senderOf_remove] at gone
    split at gone
    · rename_i hit
      have one := consistent.holder_unique live listed (congrArg some hit.1) rfl
      cases one
      rfl
    · exact absurd found gone

theorem Consistent.beginRegister_iff (consistent : Consistent s) (user : UserId) :
    (s.hub.beginRegister user = .error "identity already has an active session" ↔
      ∃ task ∈ s.tasks, task.holder = some user) := by
  rw [← List.mem_filterMap, ← State.holders, ← consistent.active]
  unfold ConnectionHub.beginRegister ConnectionHub.insertIdentity
  by_cases present : user ∈ s.hub.activeIdentities
  · rw [if_pos present]
    exact iff_of_true rfl present
  · rw [if_neg present]
    exact iff_of_false (by intro equal; cases equal) present

theorem Consistent.empty (consistent : Consistent s) (idle : ∀ task ∈ s.tasks, task.holder = none) :
    s.hub.activeIdentities = [] ∧ s.hub.connections = [] := by
  have none : s.holders = [] := List.filterMap_eq_nil_iff.mpr idle
  constructor
  · refine List.eq_nil_iff_forall_not_mem.mpr fun user present => ?_
    have held := (consistent.active user).mp present
    rw [none] at held
    exact absurd held List.not_mem_nil
  · cases entries : s.hub.connections with
    | nil => rfl
    | cons entry rest =>
      have found : s.hub.connections.lookup entry.1 = some entry.2 := by
        rw [entries, lookup_cons_ite, if_pos rfl]
      obtain ⟨target, live, -⟩ := consistent.connected _ _ found
      cases idle _ live

/-- In every interleaving of the steps: a user has at most one live registration, and in the map at most
its sender; a removal hits the connection that an eviction copied or the registration that is dropped; a
second registration fails while the first is held, evicted or not; and nothing is left of registrations
that are all dropped. -/
theorem registrations_isolated {events : List Event} (reached : run events initial = some s)
    (bounded : s.created ≤ 2 ^ 64) :
    (∀ user, (s.live user).length ≤ 1) ∧
    (∀ user own, s.hub.connections.lookup user = some own →
      ∃ target ∈ s.live user, own = [(target.id, target.sender)]) ∧
    (∀ event s' target, step event s = some s' →
      senderOf s.hub.connections target.user target.id = some target.sender →
      senderOf s'.hub.connections target.user target.id ≠ some target.sender →
      (∃ failed, event = .evict failed ∧ target ∈ failed) ∨ event = .drop target) ∧
    (∀ user, s.hub.beginRegister user = .error "identity already has an active session" ↔
      ∃ task ∈ s.tasks, task.holder = some user) ∧
    ((∀ task ∈ s.tasks, task.holder = none) →
      s.hub.activeIdentities = [] ∧ s.hub.connections = []) := by
  have consistent := consistent_run consistent_initial reached
  refine ⟨fun user => ?_, fun user own found => ?_,
    fun event s' target taken => consistent.removed bounded taken,
    consistent.beginRegister_iff, consistent.empty⟩
  · exact Nat.le_trans (length_live user) (List.nodup_iff_count_le_one.mp consistent.unique user)
  · obtain ⟨target, live, same, single⟩ := consistent.connected user own found
    exact ⟨target, mem_live.mpr ⟨live, same⟩, single⟩

def someone : UserId := ⟨⟨List.replicate 16 7, rfl⟩⟩

def lagging : State :=
  ⟨⟨[someone], 1, []⟩, 1, [.registered ⟨someone, 0, 0⟩]⟩

theorem registrations_isolated_lagging :
    run [.register someone, .number someone, .connect ⟨someone, 0, 0⟩, .notify [someone],
        .send [⟨someone, 0, 0⟩] [⟨someone, 0, 0⟩], .evict [⟨someone, 0, 0⟩]] initial = some lagging ∧
      lagging.hub.beginRegister someone = .error "identity already has an active session" := by
  have reached : run [.register someone, .number someone, .connect ⟨someone, 0, 0⟩, .notify [someone],
      .send [⟨someone, 0, 0⟩] [⟨someone, 0, 0⟩], .evict [⟨someone, 0, 0⟩]] initial = some lagging := by
    rfl
  exact ⟨reached, ((registrations_isolated reached (by decide)).2.2.2.1 someone).mpr
    ⟨_, List.mem_cons_self, rfl⟩⟩

end Results

section Refinement

variable {hub : Hub.ConnectionHub} {fine : ConnectionHub}

/-- A hub whose operations are atomic, with the same identities and a connection for every sender. -/
structure Represents (hub : Hub.ConnectionHub) (fine : ConnectionHub) : Prop where
  identities : fine.activeIdentities = hub.activeIdentities
  next : fine.nextConnectionId = hub.nextConnectionId
  connections : ∀ user id, (senderOf fine.connections user id).isSome = true ↔
    ∃ c ∈ hub.connections, c.userId = user ∧ c.connectionId = id

/-- The channel of a target does not take the message. -/
def refuses (hub : Hub.ConnectionHub) (message : RelayMessage) (target : Target) : Bool :=
  decide (∀ c ∈ hub.connections, c.userId = target.user ∧ c.connectionId = target.id →
    c.sender.offer message = none)

theorem isSome_insertConnection (user : UserId) (id : UInt64) :
    (senderOf (fine.insertConnection target).connections user id).isSome = true ↔
      (user = target.user ∧ id = target.id) ∨ (senderOf fine.connections user id).isSome = true := by
  unfold senderOf ConnectionHub.insertConnection
  rw [lookup_upsert]
  by_cases here : user = target.user
  · rw [if_pos here, Option.bind_some, lookup_upsert, here]
    cases fine.connections.lookup target.user <;> by_cases own : id = target.id <;> simp [own]
  · simp [here]

theorem mem_snapshot (recipients : List UserId) (user : UserId) (id : UInt64) :
    (∃ sender, ⟨user, id, sender⟩ ∈ fine.snapshot recipients) ↔
      user ∈ recipients ∧ (senderOf fine.connections user id).isSome = true := by
  unfold ConnectionHub.snapshot senderOf
  cases found : fine.connections.lookup user with
  | none => simp +contextual [found]
  | some own => simp [found, List.lookup_isSome_iff]

theorem Represents.evict (represents : Represents hub fine) (recipients : List UserId)
    (message : RelayMessage) : Represents (hub.notify recipients message)
      (fine.evict ((fine.snapshot recipients).filter (refuses hub message))) := by
  refine ⟨represents.identities, represents.next, fun user id => ?_⟩
  have evicted : (∃ target ∈ (fine.snapshot recipients).filter (refuses hub message),
      user = target.user ∧ id = target.id) ↔ (user ∈ recipients ∧
        (senderOf fine.connections user id).isSome = true) ∧ ∀ c ∈ hub.connections,
          c.userId = user ∧ c.connectionId = id → c.sender.offer message = none := by
    rw [← mem_snapshot]
    constructor
    · rintro ⟨⟨_, _, sender⟩, listed, rfl, rfl⟩
      obtain ⟨listed, refused⟩ := List.mem_filter.mp listed
      exact ⟨⟨sender, listed⟩, of_decide_eq_true refused⟩
    · rintro ⟨⟨sender, listed⟩, refused⟩
      exact ⟨_, List.mem_filter.mpr ⟨listed, decide_eq_true refused⟩, rfl, rfl⟩
  have taken : ∀ c : Hub.Connection, (∃ d, (if c.userId ∈ recipients then
      (c.sender.offer message).map fun sender => { c with sender } else some c) = some d ∧
        d.userId = user ∧ d.connectionId = id) ↔ (c.userId = user ∧ c.connectionId = id) ∧
          (user ∈ recipients → c.sender.offer message ≠ none) := by
    intro c
    cases c.sender.offer message <;> grind
  have kept : (∃ c ∈ (hub.notify recipients message).connections, c.userId = user ∧ c.connectionId = id) ↔
      ∃ c ∈ hub.connections, (c.userId = user ∧ c.connectionId = id) ∧
        (user ∈ recipients → c.sender.offer message ≠ none) := by
    simp only [Hub.ConnectionHub.notify, List.mem_filterMap, ← taken]
    grind
  have present := represents.connections user id
  rw [kept]
  unfold ConnectionHub.evict
  rw [senderOf_evict]
  grind

/-- The operations of the atomic hub are the half-steps of each, taken without another task between
them: `register` after `insertIdentity` numbers and connects, and `notify` evicts what refused. -/
theorem half_steps_refine (represents : Represents hub fine) :
    (∀ user, Represents (hub.activate user).2 (fine.insertIdentity user).2) ∧
    (∀ user sender, Represents (hub.register user).2
      (fine.fetchAdd.2.insertConnection ⟨user, fine.fetchAdd.1, sender⟩)) ∧
    (∀ recipients message, Represents (hub.notify recipients message)
      (fine.evict ((fine.snapshot recipients).filter (refuses hub message)))) ∧
    (∀ user id, Represents (hub.unregister user id) (fine.unregister user id)) ∧
    ∀ user, Represents (hub.deactivate user) (fine.removeIdentity user) := by
  refine ⟨fun user => ?_, fun user sender => ?_, represents.evict, fun user id => ?_, fun user => ?_⟩
  · obtain ⟨identities, next, connections⟩ := represents
    unfold ConnectionHub.insertIdentity Hub.ConnectionHub.activate
    rw [identities]
    split
    · exact ⟨identities, next, connections⟩
    · exact ⟨rfl, next, connections⟩
  · refine ⟨represents.identities, congrArg (· + 1) represents.next, fun other id => ?_⟩
    have present := represents.connections other id
    have next := represents.next
    rw [isSome_insertConnection]
    refine Iff.trans ?_ (List.exists_mem_cons_iff _ _ _).symm
    simp only [Hub.ConnectionHub.fetchAdd, ConnectionHub.fetchAdd, List.mem_filter]
    grind
  · refine ⟨represents.identities, represents.next, fun other another => ?_⟩
    have present := represents.connections other another
    simp only [ConnectionHub.unregister, Hub.ConnectionHub.unregister, senderOf_remove, List.mem_filter]
    grind
  · exact ⟨congrArg (List.filter _) represents.identities, represents.next, represents.connections⟩

end Refinement

end Grotto.Relay.Registrations
