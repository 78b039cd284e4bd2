/- GID: Grotto/Client/Cache
   digest: Cached groups are the stored ones after every atomic call, and never more than eight. -/

import Grotto.Client.Cleartext
import Grotto.Client.Operations
import Grotto.Client.Working

set_option autoImplicit false

namespace Grotto.Client.Cache

open Format.Varint (Bytes)
open Format.Postcard (Octets)
open Protocol.Records
open Base.Program Base.Program.Local
open Contacts Library Tables
open Calls Groups Effects Operations
open Working

variable {mls : Mls} {α β : Type} {s : Session mls}

section Cap

variable {m : Service mls α} {room : RoomId}

def Capped (s : Session mls) : Prop := s.groups.length ≤ 8

def Caps (m : Service mls α) : Prop := ∀ s, Capped s → m.Ends s fun _ t => Capped t

theorem Caps.bind {f : α → Service mls β} (first : Caps m)
    (rest : ∀ a, Caps (f a)) : Caps (m >>= f) := fun s capped =>
  (first s capped).bind (fun a t reached => rest a t reached) fun _ _ reached => reached

theorem caps_of_same (same : ∀ s, m.Ends s fun _ t => t.groups = s.groups) :
    Caps m := fun s capped =>
  (same s).mono fun _ _ kept => (congrArg List.length kept).trans_le capped

theorem caps_of_keeps (keeps : ∀ s, m.Ends s fun _ t => Keeps s t) : Caps m :=
  caps_of_same fun s => (keeps s).mono fun _ _ kept => kept.groups

theorem caps_pure (a : α) : Caps (pure a : Service mls α) := fun _ capped => ends_pure capped

theorem caps_fail (e : Error) : Caps (Local.fail e : Service mls α) := fun _ capped =>
  ends_fail capped

theorem caps_ofExcept (r : Except Error α) : Caps (Local.ofExcept r : Service mls α) :=
  fun _ capped => ends_ofExcept capped

theorem caps_require (e : Error) (o : Option α) : Caps (require e o : Service mls α) :=
  fun _ capped => ends_require (fun _ _ => capped) capped

theorem caps_call : Caps (call : Service mls Unit) := caps_of_keeps fun _ => ends_call

theorem caps_randomness : Caps (randomness : Service mls mls.Seed) := caps_of_keeps fun _ =>
  ends_randomness

theorem caps_provider : Caps (provider : Service mls Provider) := caps_of_keeps fun _ =>
  ends_provider.mono fun _ _ reached => reached.1

theorem caps_verifyMembers (e : Error) (identities : List SigningIdentity) :
    Caps (verifyMembers e identities : Service mls Unit) :=
  caps_of_keeps fun _ => (ends_verifyMembers identities).mono fun _ _ reached => reached.1

theorem caps_setGroup (room : RoomId) (group : mls.Group) :
    Caps (setGroup room group : Service mls Unit) := fun _ capped =>
  ends_modify ((List.length_map _).trans_le capped)

theorem ends_groupMut_capped (capped : Capped s) :
    (groupMut room : Service mls mls.Group).Ends s fun r t => Capped t ∧
      ∀ e, r = .error e → t.groups.length < 8 := by
  refine ends_get ?_
  cases s.groups.lookup room with
  | some group => exact ends_pure ⟨capped, fun _ same => nomatch same⟩
  | none =>
    have spaced : (onlyIf (s.groups.length ≥ 8) dropGroups : Service mls Unit).Ends s
        fun _ t => t.groups.length < 8 := by
      unfold onlyIf
      split
      · exact ends_modify (Nat.zero_lt_succ 7)
      · rename_i small
        exact ends_pure (Nat.not_le.mp small)
    refine Ends.bind spaced (fun _ t space => ?_) fun _ t space => ⟨space.le, fun _ _ => space⟩
    have later : ∀ u, Keeps t u → u.groups.length < 8 := fun u keeps =>
      (congrArg List.length keeps.groups).trans_lt space
    refine Ends.bind ends_loadGroup (fun group u loaded => ?_)
      fun _ u loaded => ⟨(later u loaded.1).le, fun _ _ => later u loaded.1⟩
    refine Ends.bind (ends_verifyMembers _) (fun _ v verified => ?_)
      fun _ v verified => ⟨(later v (loaded.1.trans verified.1)).le,
        fun _ _ => later v (loaded.1.trans verified.1)⟩
    exact ends_modify_then (ends_pure ⟨later v (loaded.1.trans verified.1),
      fun _ same => nomatch same⟩)

theorem caps_groupMut (room : RoomId) : Caps (groupMut room : Service mls mls.Group) :=
  fun _ capped => (ends_groupMut_capped capped).mono fun _ _ reached => reached.1

theorem ends_hasGroup_capped (capped : Capped s) :
    (hasGroup room : Service mls Bool).Ends s fun r t => Capped t ∧
      (r = .ok false → t.groups.length < 8) := by
  refine ends_attempt (ends_groupMut_capped capped) fun r t reached => ?_
  cases r with
  | ok group => exact ends_pure ⟨reached.1, fun same => nomatch same⟩
  | error e => exact ends_pure ⟨reached.1, fun _ => reached.2 e rfl⟩

theorem caps_persist (room : RoomId) : Caps (persist room : Service mls Unit) := by
  refine (caps_groupMut room).bind fun group t capped => ?_
  refine Ends.orFail (ends_get ?_)
  split
  · refine ends_update.mono fun r u reached => ?_
    have kept : Capped u := (congrArg List.length reached.1).trans_le capped
    cases r with
    | ok _ => exact kept
    | error _ => exact kept
  · exact ends_fail capped

theorem ends_cached {group : mls.Group} {rest : Unit → Service mls α}
    (space : s.groups.length < 8) (caps : ∀ u, Caps (rest u)) :
    (cacheGroup room group >>= rest).Ends s fun _ t => Capped t := by
  refine ends_modify_then (caps () _ ?_)
  exact space

theorem caps_createGroup (client : mls.MlsClient) (room : RoomId) : Caps (createGroup client room) := by
  intro s capped
  refine ends_attempt (ends_groupMut_capped capped) fun r t reached => ?_
  cases r with
  | ok group => exact ends_pure reached.1
  | error e =>
    have later : ∀ u, Keeps t u → u.groups.length < 8 := fun u keeps =>
      (congrArg List.length keeps.groups).trans_lt (reached.2 e rfl)
    refine Ends.bind ends_randomness (fun seed u keeps => ?_) fun _ u keeps => (later u keeps).le
    refine ends_ofExcept_then (fun group _ => ?_) fun _ _ => (later u keeps).le
    exact ends_cached (later u keeps) fun _ => (caps_persist room).bind fun _ => caps_pure _

theorem caps_containsUser (room : RoomId) (user : UserId) :
    Caps (containsUser room user : Service mls Bool) :=
  (caps_groupMut room).bind fun _ => caps_pure _

theorem caps_encryptBound (room : RoomId) (plaintext aad : Bytes) :
    Caps (encryptBound room plaintext aad : Service mls (UInt64 × Bytes)) := by
  refine (caps_groupMut room).bind fun group => ?_
  split
  · exact caps_fail _
  refine caps_randomness.bind fun seed => (caps_setGroup room _).bind fun _ => ?_
  refine (caps_ofExcept _).bind fun message => (caps_require _ _).bind fun bytes => ?_
  exact (caps_persist room).bind fun _ => caps_pure _

theorem caps_buildPendingAdd (room : RoomId) (package aad : Bytes) :
    Caps (buildPendingAdd room package aad : Service mls (UInt64 × Bytes × Bytes)) := by
  refine (caps_require _ _).bind fun member => (caps_groupMut room).bind fun group => ?_
  split
  · exact caps_fail _
  refine caps_randomness.bind fun seed => caps_provider.bind fun identities => ?_
  refine (caps_setGroup room _).bind fun _ => (caps_ofExcept _).bind fun made => ?_
  refine (caps_require _ _).bind fun body => (caps_require _ _).bind fun first => ?_
  exact (caps_require _ _).bind fun welcome => (caps_persist room).bind fun _ => caps_pure _

theorem caps_discardPending (room : RoomId) : Caps (discardPending room : Service mls Unit) :=
  (caps_groupMut room).bind fun _ => (caps_setGroup room _).bind fun _ => caps_persist room

theorem caps_applyAcceptedCommit (room : RoomId) :
    Caps (applyAcceptedCommit room : Service mls Unit) :=
  (caps_groupMut room).bind fun _ => caps_provider.bind fun _ => (caps_setGroup room _).bind fun _ =>
    (caps_ofExcept _).bind fun _ => caps_persist room

theorem caps_processBound (event : Event) : Caps (processBound event : Service mls Processed) := by
  refine (caps_require _ _).bind fun incoming => ?_
  split
  · exact caps_fail _
  refine (caps_groupMut _).bind fun group => ?_
  split
  · split
    · exact caps_fail _
    · exact caps_fail _
  refine caps_call.bind fun _ => caps_provider.bind fun identities => ?_
  refine (caps_setGroup _ _).bind fun _ => (caps_ofExcept _).bind fun received => ?_
  refine (caps_require _ _).bind fun bound => (caps_require _ _).bind fun leaf => ?_
  refine (caps_require _ _).bind fun actual => ?_
  split
  · exact caps_fail _
  · exact (caps_verifyMembers _ _).bind fun _ => (caps_persist _).bind fun _ => caps_pure _

theorem caps_join (client : mls.MlsClient) (room : RoomId) (welcome : Bytes) :
    Caps (join client room welcome) := by
  intro s capped
  refine Ends.bind (ends_hasGroup_capped capped) (fun present t reached => ?_)
    fun _ t reached => reached.1
  cases present with
  | true => exact ((caps_groupMut room).bind fun group => caps_pure _) t reached.1
  | false =>
    have space := reached.2 rfl
    have later : ∀ u, Keeps t u → u.groups.length < 8 := fun u keeps =>
      (congrArg List.length keeps.groups).trans_lt space
    refine ends_require_then (fun message _ => ?_) fun _ => space.le
    refine Ends.bind ends_call (fun _ u called => ?_) fun _ u called => (later u called).le
    refine Ends.bind ends_provider (fun identities v provided => ?_)
      fun _ v provided => (later v (called.trans provided.1)).le
    have whole := called.trans provided.1
    refine ends_get (ends_ofExcept_then (fun group _ => ?_) fun _ _ => (later v whole).le)
    split
    · exact ends_fail (later v whole).le
    refine Ends.bind (ends_verifyMembers _) (fun _ w verified => ?_)
      fun _ w verified => (later w (whole.trans verified.1)).le
    exact ends_cached (later w (whole.trans verified.1))
      fun _ => (caps_persist room).bind fun _ => caps_pure _

end Cap

section Closures

inductive Operation
  | createGroup (room : RoomId)
  | join (room : RoomId) (welcome : Bytes)
  | encryptBound (room : RoomId) (plaintext aad : Bytes)
  | buildPendingAdd (room : RoomId) (package aad : Bytes)
  | discardPending (room : RoomId)
  | applyAcceptedCommit (room : RoomId)
  | processBound (event : Event)
  | hasGroup (room : RoomId)
  | containsUser (room : RoomId) (user : UserId)

inductive Answer
  | epoch (epoch : UInt64)
  | encrypted (epoch : UInt64) (bytes : Bytes)
  | added (epoch : UInt64) (body welcome : Bytes)
  | written
  | processed (outcome : Processed)
  | present (found : Bool)

variable (client : mls.MlsClient)

def Operation.run : Operation → Service mls Answer
  | .createGroup room => do
      let epoch ← Groups.createGroup client room
      pure (.epoch epoch)
  | .join room welcome => do
      let epoch ← Groups.join client room welcome
      pure (.epoch epoch)
  | .encryptBound room plaintext aad => do
      let (epoch, bytes) ← Groups.encryptBound room plaintext aad
      pure (.encrypted epoch bytes)
  | .buildPendingAdd room package aad => do
      let (epoch, body, welcome) ← Groups.buildPendingAdd room package aad
      pure (.added epoch body welcome)
  | .discardPending room => do
      Groups.discardPending room
      pure .written
  | .applyAcceptedCommit room => do
      Groups.applyAcceptedCommit room
      pure .written
  | .processBound event => do
      let outcome ← Groups.processBound event
      pure (.processed outcome)
  | .hasGroup room => do
      let found ← Groups.hasGroup room
      pure (.present found)
  | .containsUser room user => do
      let found ← Groups.containsUser room user
      pure (.present found)

/-- What a successful operation does to the stored groups: the session has no other. A stored group is
founded or joined anew only where it was `unread`. -/
def Operation.Effect (unread : Prop) (store : Store mls) : Operation → Answer → Store mls → Prop
  | .createGroup room, .epoch epoch, next =>
    Founds client unread store room next ∧ Reports next room epoch
  | .join room welcome, .epoch epoch, next =>
    Joins client unread store room welcome next ∧ Reports next room epoch
  | .encryptBound room plaintext aad, .encrypted epoch bytes, next =>
    Encrypts store room plaintext aad epoch bytes next
  | .buildPendingAdd room package aad, .added epoch body welcome, next =>
    Adds store room package aad epoch body welcome next
  | .discardPending room, .written, next => Discards store room next
  | .applyAcceptedCommit room, .written, next => Merges store room next
  | .processBound event, .processed outcome, next => Processes store event outcome next
  | .hasGroup room, .present found, next =>
    next = store ∧ (found = true → ∃ group, store.mlsGroups room = some group)
  | .containsUser room user, .present found, next =>
    next = store ∧ ∃ group, store.mlsGroups room = some group ∧
      found = (members group).any fun identity =>
        decide (identity.identifier = some user.bytes.toList)
  | _, _, _ => False

def Operation.room : Operation → RoomId
  | .createGroup room | .join room _ | .encryptBound room _ _ | .buildPendingAdd room _ _
  | .discardPending room | .applyAcceptedCommit room | .hasGroup room | .containsUser room _ => room
  | .processBound event => event.operation.room

/-- A creation or a join in a room whose stored group it fails to read. -/
def Operation.Misreads (here : Surroundings mls) (s : Session mls) : Operation → Prop
  | .createGroup room | .join room _ => ∃ group, Unread here s room group
  | _ => False

/-- The body of an `atomic` call: operations on groups and statements on the other tables, each
chosen by what came before, up to the first error. -/
inductive Closure (mls : Mls) : Type
  | finish (result : Except Error Unit)
  | perform (operation : Operation) (next : Answer → Closure mls)
  | look (next : Store mls → Closure mls)
  | record (write : Store mls → Except StoreError (Store mls))
      (apart : ∀ store after, write store = .ok after → after.mlsGroups = store.mlsGroups)
      (next : Closure mls)

def Closure.run : Closure mls → Service mls Unit
  | .finish result => Local.ofExcept result
  | .perform operation next => do
      let answer ← operation.run client
      (next answer).run
  | .look next => do
      let store ← query fun store => store
      (next store).run
  | .record write _ next => do
      execute write
      next.run

/-- Some operation of the run misreads. -/
def Closure.Misreads (here : Surroundings mls) : Closure mls → Session mls → Prop
  | .finish _, _ => False
  | .perform operation next, s => operation.Misreads here s ∨ ∃ answer t,
      operation.run client here s = (.ok answer, t) ∧ (next answer).Misreads here t
  | .look next, s => ∃ store t, query (fun store => store) here s = (.ok store, t) ∧
      (next store).Misreads here t
  | .record write _ next, s => ∃ t, execute write here s = (.ok (), t) ∧ next.Misreads here t

def Closure.Effect (unread : Prop) : Closure mls → Store mls → Store mls → Prop
  | .finish result, store, after => result = .ok () ∧ after = store
  | .perform operation next, store, after => ∃ answer middle,
      operation.Effect client unread store answer middle ∧ (next answer).Effect unread middle after
  | .look next, store, after => (next store).Effect unread store after
  | .record write _ next, store, after => ∃ middle, write store = .ok middle ∧
      next.Effect unread middle after

structure Call (mls : Mls) where
  body : Closure mls
  here : Surroundings mls

def Call.Misreads (s : Session mls) (c : Call mls) : Prop :=
  ∃ t, begin c.here s = (.ok (), t) ∧ c.body.Misreads client c.here t

def Call.after (s : Session mls) (c : Call mls) : Session mls :=
  (atomic (c.body.run client) c.here s).2

def runCalls (s : Session mls) (calls : List (Call mls)) : Session mls :=
  calls.foldl (Call.after client) s

variable {client} {here : Surroundings mls} {unread : Prop}

theorem gives_operation (operation : Operation) (coherent : Coherent s)
    (admits : operation.Misreads here s → unread) :
    (operation.run client).Gives here s fun answer t =>
      Coherent t ∧ operation.Effect client unread s.store answer t.store := by
  cases operation with
  | createGroup room =>
    exact (gives_createGroup coherent admits).bind fun _ _ reached => Yields.gives (yields_pure reached)
  | join room welcome =>
    exact (gives_join coherent admits).bind fun _ _ reached => Yields.gives (yields_pure reached)
  | encryptBound room plaintext aad =>
    exact ((yields_encryptBound coherent).bind fun _ _ reached => yields_pure reached).gives
  | buildPendingAdd room package aad =>
    exact ((yields_buildPendingAdd coherent).bind fun _ _ reached => yields_pure reached).gives
  | discardPending room =>
    exact ((yields_discardPending coherent).bind fun _ _ reached => yields_pure reached).gives
  | applyAcceptedCommit room =>
    exact ((yields_applyAcceptedCommit coherent).bind fun _ _ reached => yields_pure reached).gives
  | processBound event =>
    exact ((ends_processBound coherent).yields.bind fun outcome _ reached =>
      yields_pure (reached.1 outcome rfl)).gives
  | hasGroup room =>
    refine ((ends_hasGroup coherent).yields.bind fun found t reached => ?_).gives
    obtain ⟨store, kept, held⟩ := reached
    exact yields_pure ⟨kept, store, fun yes => held (congrArg _ yes)⟩
  | containsUser room user =>
    refine ((yields_containsUser coherent).bind fun found t reached => ?_).gives
    obtain ⟨store, kept, held⟩ := reached
    exact yields_pure ⟨kept, store, held⟩

theorem caps_operation (operation : Operation) : Caps (operation.run client) := by
  cases operation with
  | createGroup room => exact (caps_createGroup client room).bind fun _ => caps_pure _
  | join room welcome => exact (caps_join client room welcome).bind fun _ => caps_pure _
  | encryptBound room plaintext aad => exact (caps_encryptBound room _ _).bind fun _ => caps_pure _
  | buildPendingAdd room package aad =>
    exact (caps_buildPendingAdd room _ _).bind fun _ => caps_pure _
  | discardPending room => exact (caps_discardPending room).bind fun _ => caps_pure _
  | applyAcceptedCommit room => exact (caps_applyAcceptedCommit room).bind fun _ => caps_pure _
  | processBound event => exact (caps_processBound event).bind fun _ => caps_pure _
  | hasGroup room =>
    refine Caps.bind (fun s capped => ?_) fun _ => caps_pure _
    exact (ends_hasGroup_capped capped).mono fun _ _ reached => reached.1
  | containsUser room user => exact (caps_containsUser room user).bind fun _ => caps_pure _

theorem gives_closure (body : Closure mls) (coherent : Coherent s)
    (admits : body.Misreads client here s → unread) :
    (body.run client).Gives here s fun _ t =>
      Coherent t ∧ body.Effect client unread s.store t.store := by
  induction body generalizing s with
  | finish result => exact (yields_ofExcept fun _ same => ⟨coherent, same, rfl⟩).gives
  | perform operation next ih =>
    refine (gives_operation operation coherent fun own => admits (.inl own)).along.bind
      fun answer t reached => ?_
    obtain ⟨ran, kept, effect⟩ := reached
    intro _ u result
    obtain ⟨last, onward⟩ := ih answer kept (fun later => admits (.inr ⟨answer, t, ran, later⟩)) _ u result
    exact ⟨last, answer, t.store, effect, onward⟩
  | look next ih =>
    refine yields_query.gives.along.bind fun store t looked => ?_
    obtain ⟨ran, rfl, keeps⟩ := looked
    have onward := ih s.store (keeps.coherent coherent) fun later => admits ⟨_, t, ran, later⟩
    rw [keeps.store] at onward
    exact onward
  | record write apart next ih =>
    refine yields_execute.gives.along.bind fun _ t written => ?_
    obtain ⟨ran, written⟩ := written
    have kept : Coherent t := by
      intro room group cached
      rw [written.2] at cached
      rw [apart _ _ written.1]
      exact coherent room group cached
    intro _ u result
    obtain ⟨last, onward⟩ := ih kept (fun later => admits ⟨t, ran, later⟩) _ u result
    exact ⟨last, t.store, written.1, onward⟩

theorem caps_closure (body : Closure mls) : Caps (body.run client) := by
  induction body with
  | finish result => exact caps_ofExcept result
  | perform operation next ih => exact (caps_operation operation).bind ih
  | look next ih =>
    exact (caps_of_keeps fun _ => ends_query.mono fun _ _ looked => looked.1).bind ih
  | record write apart next ih =>
    exact (caps_of_same fun _ => ends_execute.mono fun _ _ written => written.1).bind fun _ => ih

structure Tidy (s : Session mls) : Prop where
  coherent : Coherent s
  capped : Capped s

theorem tidy_opened (store : Store mls) : Tidy (opened store) :=
  ⟨coherent_opened store, Nat.zero_le 8⟩

theorem caps_atomic {operation : Service mls α} (caps : Caps operation) : Caps (atomic operation) := by
  intro s capped here
  have start := ends_begin (s := s) here
  unfold atomic
  rcases opening : begin here s with ⟨_ | _, t⟩
  · rw [opening] at start
    exact (congrArg List.length start.groups).trans_le capped
  rw [opening] at start
  have inside : Capped t := (congrArg List.length start.groups).trans_le capped
  have closes : Caps (commit : Service mls Unit) := caps_of_keeps fun u =>
    Ends.bind ends_call (fun _ v keeps => ends_modify ⟨keeps.store, keeps.groups⟩)
      fun _ v keeps => keeps
  have reached := (caps.bind fun value => closes.bind fun _ => caps_pure value) t inside here
  rcases closing : (do let value ← operation; commit; pure value : Service mls α) here t with
    ⟨_ | a, u⟩
  · simp only [closing]
    exact Nat.zero_le 8
  · rw [closing] at reached
    simp only [closing]
    exact reached

theorem call_settles (c : Call mls) (tidy : Tidy s) (admits : c.Misreads client s → unread) :
    Tidy (c.after client s) ∧ Outcome s.store (fun _ store => c.body.Effect client unread s.store store)
      (atomic (c.body.run client) c.here s).1 (c.after client s).store := by
  have gives : ∀ t, Keeps s t → begin c.here s = (.ok (), t) → (c.body.run client).Gives c.here t
      fun _ u => Coherent u ∧ c.body.Effect client unread s.store u.store := by
    intro t keeps opening
    rw [← keeps.store]
    exact gives_closure c.body (keeps.coherent tidy.coherent) fun later => admits ⟨t, opening, later⟩
  obtain ⟨coherent, outcome⟩ := atomic_settles _ tidy.coherent gives
  exact ⟨⟨coherent, caps_atomic (caps_closure c.body) s tidy.capped c.here⟩, outcome⟩

theorem Tidy.runCalls (tidy : Tidy s) (calls : List (Call mls)) :
    Tidy (runCalls client s calls) := by
  induction calls generalizing s with
  | nil => exact tidy
  | cons c calls ih => exact ih (call_settles c tidy id).1

theorem Operation.Effect.others {operation : Operation} {store next : Store mls} {answer : Answer}
    (effect : operation.Effect client unread store answer next) {room : RoomId}
    (apart : room ≠ operation.room) : next.mlsGroups room = store.mlsGroups room := by
  have written : ∀ group, (store.writeGroup operation.room group).mlsGroups room =
      store.mlsGroups room := fun group => Store.writeGroup_of_ne store apart group
  cases operation <;> cases answer <;> try exact effect.elim
  case createGroup.epoch =>
    obtain ⟨⟨_, _, rfl⟩ | ⟨_, group, _, _, rfl⟩, -⟩ := effect
    · rfl
    · exact written group
  case join.epoch =>
    obtain ⟨⟨_, _, rfl⟩ | ⟨_, _, group, _, _, _, _, _, _, rfl⟩, -⟩ := effect
    · rfl
    · exact written group
  case encryptBound.encrypted =>
    obtain ⟨_, _, _, group, _, _, _, _, _, rfl⟩ := effect
    exact written group
  case buildPendingAdd.added =>
    obtain ⟨_, _, _, _, _, _, _, group, _, _, _, _, _, _, _, _, _, rfl⟩ := effect
    exact written group
  case discardPending.written =>
    obtain ⟨_, _, rfl⟩ := effect
    exact written _
  case applyAcceptedCommit.written =>
    obtain ⟨_, _, group, _, _, _, rfl⟩ := effect
    exact written group
  case processBound.processed =>
    obtain ⟨_, _, _, _, group, _, _, _, _, _, _, _, _, _, _, _, _, _, _, rfl⟩ := effect
    exact written group
  case hasGroup.present =>
    obtain ⟨rfl, -⟩ := effect
    rfl
  case containsUser.present =>
    obtain ⟨rfl, -⟩ := effect
    rfl

/-- After any calls the cache agrees with the tables and keeps to the cap. A further call fails and
changes nothing, or changes the tables as its operations do one by one without a cache, where a stored
group is founded or joined anew only if the call misreads one. What follows a failed call works on the
stored groups. -/
theorem group_cache (client : mls.MlsClient) (store : Store mls) (calls : List (Call mls)) :
    let s := runCalls client (opened store) calls
    (∀ room group, s.groups.lookup room = some group → s.store.mlsGroups room = some group) ∧
    s.groups.length ≤ 8 ∧
    ∀ (body : Closure mls) (here : Surroundings mls),
      (∀ u, Keeps s u → (body.run client here u).2.groups.length ≤ 8) ∧
      (∀ value t, atomic (body.run client) here s = (.ok value, t) →
        body.Effect client True s.store t.store ∧
        (¬Call.Misreads client s ⟨body, here⟩ → body.Effect client False s.store t.store)) ∧
      ∀ e t, atomic (body.run client) here s = (.error e, t) → t.store = s.store ∧
        ∀ u, Keeps t u →
          (∀ (operation : Operation) again answer v,
            operation.run client again u = (.ok answer, v) →
            operation.Effect client (operation.Misreads again u) s.store answer v.store ∧
            ∀ room, room ≠ operation.room → v.store.mlsGroups room = s.store.mlsGroups room) ∧
          (∀ room group again, Known s.store room group → Works again → u.poisoned = false →
            ∃ v, groupMut room again u = (.ok group, v)) := by
  intro s
  have tidy : Tidy s := (tidy_opened store).runCalls calls
  refine ⟨tidy.coherent, tidy.capped, fun body here => ⟨fun u keeps => ?_, fun value t result => ?_,
    fun e t result => ?_⟩⟩
  · exact caps_closure body u ((congrArg List.length keeps.groups).trans_le tidy.capped) here
  · have after : Call.after client s ⟨body, here⟩ = t := congrArg Prod.snd result
    have settled : ∀ {unread : Prop}, (Call.Misreads client s ⟨body, here⟩ → unread) →
        body.Effect client unread s.store t.store := by
      intro unread admits
      have outcome := (call_settles ⟨body, here⟩ tidy admits).2
      rw [after, congrArg Prod.fst result] at outcome
      exact outcome
    exact ⟨settled fun _ => trivial, settled⟩
  · have settled := call_settles ⟨body, here⟩ tidy fun lost : Call.Misreads client s ⟨body, here⟩ => lost
    have after : Call.after client s ⟨body, here⟩ = t := congrArg Prod.snd result
    rw [after, congrArg Prod.fst result] at settled
    have same : t.store = s.store := settled.2
    refine ⟨same, fun u keeps => ?_⟩
    have coherent : Coherent u := keeps.coherent settled.1.coherent
    have tables : u.store = s.store := keeps.store.trans same
    refine ⟨fun operation again answer v ran => ?_, fun room group again known works standing => ?_⟩
    · obtain ⟨-, effect⟩ := gives_operation operation coherent id answer v ran
      rw [tables] at effect
      exact ⟨effect, fun room apart => effect.others apart⟩
    · rw [← tables] at known
      obtain ⟨found, v, read, rfl, -⟩ := returns_groupMut works ⟨rfl, standing⟩ coherent known
      exact ⟨v, read⟩

end Closures

section Samples

def owner : Cleartext.Member := ⟨⟨Octets.replicate 16 1⟩, Octets.replicate 32 0⟩

def guest : Cleartext.Member := ⟨⟨Octets.replicate 16 2⟩, Octets.replicate 32 0⟩

def numbered (n : UInt8) : RoomId := ⟨Octets.replicate 16 n⟩

def trusting : Store Cleartext.mls :=
  { Store.empty _ with verifiedContacts := fun _ => some ⟨List.replicate 32 0, []⟩ }

/-- A machine on which the storage call `n` fails. -/
def failing (n : Option Nat) : Surroundings Cleartext.mls where
  fault k := decide (n = some k)
  pageSize := 4096
  pageCount _ := 16
  newDataLimit := 2 ^ 20
  seed _ := ()

def inOrder : List Operation → Closure Cleartext.mls
  | [] => .finish (.ok ())
  | operation :: rest => .perform operation fun _ => inOrder rest

def addGuest : Call Cleartext.mls where
  body := inOrder [.createGroup (numbered 1), .buildPendingAdd (numbered 1)
    ((Cleartext.mls.toBytes ⟨.keyPackage, 0, 0, [], [], [guest]⟩).getD []) [],
    .applyAcceptedCommit (numbered 1)]
  here := failing none

def fillCache : Call Cleartext.mls where
  body := inOrder ([2, 3, 4, 5, 6, 7, 8].map fun n => .createGroup (numbered n))
  here := failing none

def createAgain (n : Option Nat) : Call Cleartext.mls where
  body := inOrder [.createGroup (numbered 9), .createGroup (numbered 1)]
  here := failing n

def firstGroup (s : Session Cleartext.mls) : Option Cleartext.Group := s.store.mlsGroups (numbered 1)

/-- A ninth room clears the cache. The load of the first one then fails, and its group, with the guest
in it, is replaced by a new one in a call that succeeds. -/
theorem failed_load_overwrites :
    let s := runCalls owner (opened trusting) [addGuest, fillCache]
    s.groups.length = 8 ∧
      firstGroup s = some ⟨(numbered 1).bytes.toList, 1, [owner, guest], 0, none⟩ ∧
      firstGroup ((createAgain none).after owner s) = firstGroup s ∧
      (atomic ((createAgain (some 37)).body.run owner) (failing (some 37)) s).1.isOk = true ∧
      firstGroup ((createAgain (some 37)).after owner s) =
        some ⟨(numbered 1).bytes.toList, 0, [owner], 0, none⟩ := by
  decide +kernel

end Samples

end Grotto.Client.Cache
