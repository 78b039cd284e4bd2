/- GID: Grotto/Client/Effects
   digest: What storage calls, transactions and group operations leave behind. -/

import Grotto.Client.Groups

set_option autoImplicit false

namespace Grotto.Client.Effects

open Format.Varint (Bytes)
open Protocol.Records Protocol.Wire Protocol.Transcripts
open Base.Program Base.Program.Local
open Contacts Library Tables
open Calls Groups

variable {mls : Mls} {α : Type}

structure Keeps (s t : Session mls) : Prop where
  store : t.store = s.store
  groups : t.groups = s.groups

theorem Keeps.refl (s : Session mls) : Keeps s s := ⟨rfl, rfl⟩

theorem Keeps.trans {s t u : Session mls} (first : Keeps s t) (second : Keeps t u) : Keeps s u :=
  ⟨second.store.trans first.store, second.groups.trans first.groups⟩

variable {β : Type} {e : Error} {o : Option α}

section Statements

variable {s : Session mls} {post : Except Error α → Session mls → Prop} {write : Store mls → Store mls}
variable {read : Store mls → α}

theorem ends_call : (call : Service mls Unit).Ends s fun _ t => Keeps s t := by
  intro here
  unfold call
  split
  · exact Keeps.refl s
  · split
    · exact ⟨rfl, rfl⟩
    · exact ⟨rfl, rfl⟩

theorem ends_query :
    (query read).Ends s fun r t => Keeps s t ∧ ∀ a, r = .ok a → a = read s.store := by
  refine Ends.bind ends_call (fun _ t keeps => ?_) (fun e t keeps => ⟨keeps, fun a same => by cases same⟩)
  refine ends_get (ends_pure ⟨keeps, fun b equal => ?_⟩)
  rw [← Except.ok.inj equal, keeps.store]

theorem yields_query : (query read).Yields s fun a t => a = read s.store ∧ Keeps s t :=
  ends_query.yields.mono fun a _ reached => ⟨reached.2 a rfl, reached.1⟩

theorem ends_update :
    (update write).Ends s fun r t => t.groups = s.groups ∧
      match r with
      | .ok _ => t.store = write s.store
      | .error _ => t.store = s.store := by
  refine Ends.bind ends_call (fun _ t keeps => ?_) (fun e t keeps => ⟨keeps.groups, keeps.store⟩)
  refine ends_modify ⟨keeps.groups, ?_⟩
  rw [← keeps.store]

theorem yields_update :
    (update write).Yields s fun _ t => t.store = write s.store ∧ t.groups = s.groups :=
  ends_update.yields.mono fun _ _ reached => ⟨reached.2, reached.1⟩

theorem ends_execute {write : Store mls → Except StoreError (Store mls)} :
    (execute write).Ends s fun r t => t.groups = s.groups ∧
      match r with
      | .ok _ => write s.store = .ok t.store
      | .error _ => t.store = s.store := by
  refine Ends.bind ends_call (fun _ t keeps => ?_) (fun e t keeps => ⟨keeps.groups, keeps.store⟩)
  refine ends_get ?_
  cases written : write t.store with
  | ok store =>
    refine ends_modify ⟨keeps.groups, ?_⟩
    rw [← keeps.store]
    exact written
  | error e => exact ends_fail ⟨keeps.groups, keeps.store⟩

theorem yields_execute {write : Store mls → Except StoreError (Store mls)} :
    (execute write).Yields s fun _ t => write s.store = .ok t.store ∧ t.groups = s.groups :=
  ends_execute.yields.mono fun _ _ reached => ⟨reached.2, reached.1⟩

theorem ends_admitNewData {bytes : Nat} :
    (admitNewData bytes : Service mls Unit).Ends s fun _ t => Keeps s t := by
  refine Ends.bind ends_call (fun _ t keeps => ?_) (fun e t keeps => keeps)
  refine ends_surroundings fun here => ends_get ?_
  split
  · exact ends_fail keeps
  · exact ends_pure keeps

theorem yields_admitNewData {bytes : Nat} :
    (admitNewData bytes : Service mls Unit).Yields s fun _ t => Keeps s t :=
  ends_admitNewData.yields

theorem yields_encoded [Serde β] {message : β} :
    (encoded message : Service mls Bytes).Yields s fun bytes t =>
      encodeMessage message = .ok bytes ∧ t = s :=
  yields_ofExcept fun _ mapped => ⟨mapError_ok mapped, rfl⟩

theorem yields_decoded [Serde β] {bytes : Bytes} :
    (decoded β bytes : Service mls β).Yields s fun message t =>
      decodeMessage β bytes = .ok message ∧ t = s :=
  yields_ofExcept fun _ mapped => ⟨mapError_ok mapped, rfl⟩

theorem ends_require (found : ∀ a, o = some a → post (.ok a) s) (missing : post (.error e) s) :
    (require e o : Service mls α).Ends s post := by
  cases o with
  | some a => exact ends_pure (found a rfl)
  | none => exact ends_fail missing

theorem ends_require_then {f : α → Service mls β} {post : Except Error β → Session mls → Prop}
    (found : ∀ a, o = some a → (f a).Ends s post) (missing : o = none → post (.error e) s) :
    (require e o >>= f).Ends s post := by
  cases o with
  | some a => exact found a rfl
  | none => exact fun _ => missing rfl

theorem yields_require : (require e o : Service mls α).Yields s fun a t => o = some a ∧ t = s := by
  cases o with
  | some a => exact yields_pure ⟨rfl, rfl⟩
  | none => exact yields_fail

theorem Ends.orFail {m : Service mls α}
    (ends : m.Ends s fun r t =>
      match r with
      | .ok a => post (.ok a) t
      | .error _ => post (.error e) t) : (orFail e m).Ends s post := by
  refine ends_attempt ends fun r t reached => ?_
  cases r with
  | ok a => exact ends_pure reached
  | error _ => exact ends_fail reached

theorem Yields.orFail {m : Service mls α} {post : α → Session mls → Prop}
    (yields : m.Yields s post) : (orFail e m).Yields s post := by
  intro here a t result
  change (match (m here s) with
    | (r, u) => (match r with
      | .ok a => (pure a : Service mls α)
      | .error _ => Local.fail e) here u) = (.ok a, t) at result
  rcases outcome : m here s with ⟨_ | b, u⟩
  · rw [outcome] at result
    cases (Prod.mk.inj result).1
  · rw [outcome] at result
    obtain ⟨same, rfl⟩ := Prod.mk.inj result
    obtain rfl := Except.ok.inj same
    exact yields here _ _ outcome

end Statements

/-- An action takes effect, or fails and leaves the tables alone. -/
def Outcome (before : Store mls) (post : α → Store mls → Prop) :
    Except Error α → Store mls → Prop
  | .ok a, after => post a after
  | .error _, after => after = before

variable {body : Service mls α}

section Transactions

variable {s : Session mls} {here : Surroundings mls}

theorem ends_begin : (begin : Service mls Unit).Ends s fun _ t => Keeps s t := by
  refine ends_get ?_
  split
  · exact ends_fail (Keeps.refl _)
  · split
    · exact ends_fail (Keeps.refl _)
    · refine Ends.bind ends_call (fun _ t keeps => ?_) (fun e t keeps => keeps)
      exact ends_modify ⟨keeps.store, keeps.groups⟩

theorem yields_commit : (commit : Service mls Unit).Yields s fun _ t => Keeps s t := by
  refine Yields.bind ends_call.yields (fun _ t keeps => ?_)
  exact yields_modify ⟨keeps.store, keeps.groups⟩

theorem rollback_store (here : Surroundings mls) (before : Store mls) (t : Session mls) :
    (rollback here before t).store = before ∧ (rollback here before t).groups = t.groups := by
  unfold rollback
  split
  · exact ⟨rfl, rfl⟩
  · split
    · exact ⟨rfl, rfl⟩
    · exact ⟨rfl, rfl⟩

theorem transaction_ok {s t u : Session mls} {a : α} (opened : begin here s = (.ok (), t))
    (closed : (do let value ← body; commit; pure value : Service mls α) here t = (.ok a, u)) :
    transaction body here s = (.ok a, u) := by
  unfold transaction
  rw [opened]
  dsimp only
  rw [closed]

theorem transaction_error {s t u : Session mls} {x : Error} (opened : begin here s = (.ok (), t))
    (closed : (do let value ← body; commit; pure value : Service mls α) here t = (.error x, u)) :
    transaction body here s = (.error x, rollback here s.store u) := by
  unfold transaction
  rw [opened]
  dsimp only
  rw [closed]

theorem atomic_eq (operation : Service mls α) (here : Surroundings mls) (s : Session mls) :
    ∃ groups, atomic operation here s = ((transaction operation here s).1,
      { (transaction operation here s).2 with groups := groups }) := by
  unfold atomic transaction
  rcases begin here s with ⟨_ | _, t⟩
  · exact ⟨t.groups, rfl⟩
  rcases closing : (do let value ← operation; commit; pure value : Service mls α) here t with
    ⟨_ | a, u⟩
  · simp only [closing]
    exact ⟨[], rfl⟩
  · simp only [closing]
    exact ⟨u.groups, rfl⟩

theorem gives_committed {post : α → Session mls → Prop} (gives : body.Gives here s post) :
    (do let value ← body; commit; pure value : Service mls α).Gives here s fun a u =>
      ∃ t, Keeps t u ∧ post a t := by
  refine gives.bind (fun a t reached => ?_)
  refine (Yields.bind yields_commit (fun _ u keeps => ?_)).gives
  exact yields_pure ⟨t, keeps, reached⟩

theorem ends_transaction (post : α → Store mls → Prop)
    (untouched : ∀ t, body.Ends t fun _ u => u.groups = t.groups)
    (yields : ∀ t, Keeps s t → body.Yields t fun a u => post a u.store) :
    (transaction body).Ends s fun r t => t.groups = s.groups ∧
      Outcome s.store post r t.store := by
  have committed : ∀ t, (do let value ← body; commit; pure value : Service mls α).Ends t
      fun _ u => u.groups = t.groups := by
    intro t
    have closing : ∀ u : Session mls, (commit : Service mls Unit).Ends u
        fun _ v => v.groups = u.groups := fun u =>
      Ends.bind ends_call (fun _ v keeps => ends_modify keeps.groups) fun e v keeps => keeps.groups
    refine Ends.bind (untouched t) (fun a u same => ?_) fun e u same => same
    refine Ends.bind (closing u) (fun _ v kept => ends_pure (kept.trans same)) ?_
    exact fun e v kept => kept.trans same
  intro here
  have start := ends_begin (s := s) here
  rcases opening : begin here s with ⟨_ | _, t⟩ <;> rw [opening] at start
  · unfold transaction
    rw [opening]
    exact ⟨start.groups, start.store⟩
  have groups := committed t here
  rcases closing : (do let value ← body; commit; pure value : Service mls α) here t with ⟨_ | a, u⟩
    <;> rw [closing] at groups
  · rw [transaction_error opening closing]
    obtain ⟨store, kept⟩ := rollback_store here s.store u
    exact ⟨(kept.trans groups).trans start.groups, store⟩
  rw [transaction_ok opening closing]
  obtain ⟨v, keeps, reached⟩ := gives_committed (yields t start).gives a u closing
  refine ⟨groups.trans start.groups, ?_⟩
  change post a u.store
  rw [keeps.store]
  exact reached

end Transactions

section Coherence

variable {operation : Service mls α}

def Coherent (s : Session mls) : Prop :=
  ∀ room group, s.groups.lookup room = some group → s.store.mlsGroups room = some group

theorem Keeps.coherent {s t : Session mls} (keeps : Keeps s t) (coherent : Coherent s) :
    Coherent t := by
  intro room group cached
  rw [keeps.groups] at cached
  rw [keeps.store]
  exact coherent room group cached

theorem coherent_opened (store : Store mls) : Coherent (opened store) := by
  intro room group cached
  cases cached

variable {s : Session mls}

theorem atomic_settles (post : α → Store mls → Prop)
    {here : Surroundings mls} (coherent : Coherent s)
    (gives : ∀ t, Keeps s t → begin here s = (.ok (), t) →
      operation.Gives here t fun a u => Coherent u ∧ post a u.store) :
    Coherent (atomic operation here s).2 ∧
      Outcome s.store post (atomic operation here s).1 (atomic operation here s).2.store := by
  have start := ends_begin (s := s) here
  unfold atomic
  rcases opening : begin here s with ⟨_ | _, t⟩
  · rw [opening] at start
    exact ⟨start.coherent coherent, start.store⟩
  rw [opening] at start
  rcases closing : (do let value ← operation; commit; pure value : Service mls α) here t with
    ⟨_ | a, u⟩
  · simp only [closing]
    refine ⟨?_, (rollback_store here s.store u).1⟩
    intro room group cached
    cases cached
  · simp only [closing]
    obtain ⟨v, keeps, kept, reached⟩ := gives_committed (gives t start opening) a u closing
    refine ⟨keeps.coherent kept, ?_⟩
    change post a u.store
    rw [keeps.store]
    exact reached

theorem ends_atomic (post : α → Store mls → Prop) (coherent : Coherent s)
    (yields : ∀ t, Keeps s t → operation.Yields t fun a u => Coherent u ∧ post a u.store) :
    (atomic operation).Ends s fun r t => Coherent t ∧ Outcome s.store post r t.store :=
  fun _ => atomic_settles post coherent fun t keeps _ => (yields t keeps).gives

end Coherence

variable {store : Store mls} {group next : mls.Group}

section Operations

variable {s : Session mls} {room : RoomId}

theorem yields_liftMls {r : Except MlsError α} :
    (liftMls r : Service mls α).Yields s fun a t => r = .ok a ∧ t = s :=
  yields_ofExcept fun _ mapped => ⟨mapError_ok mapped, rfl⟩

theorem ends_randomness : (randomness : Service mls mls.Seed).Ends s fun _ t => Keeps s t :=
  fun _ => ⟨rfl, rfl⟩

theorem yields_randomness : (randomness : Service mls mls.Seed).Yields s fun _ t => Keeps s t :=
  ends_randomness.yields

theorem ends_provider : (provider : Service mls Provider).Ends s fun r t => Keeps s t ∧
    ∃ identities, r = .ok identities ∧
      ∀ identity, identities identity = true → s.store.verifies identity = true := by
  intro here
  refine ⟨⟨rfl, rfl⟩, _, rfl, fun identity accepted => ?_⟩
  simp only [Bool.and_eq_true] at accepted
  exact accepted.2

theorem yields_provider : (provider : Service mls Provider).Yields s fun identities t =>
    Keeps s t ∧ ∀ identity, identities identity = true → s.store.verifies identity = true := by
  refine ends_provider.yields.mono fun identities t reached => ?_
  obtain ⟨keeps, found, same, pins⟩ := reached
  obtain rfl := Except.ok.inj same
  exact ⟨keeps, pins⟩

theorem ends_verifyMembers (identities : List SigningIdentity) :
    (verifyMembers e identities : Service mls Unit).Ends s fun r t => Keeps s t ∧
      ∀ u, r = .ok u → ∀ identity ∈ identities, s.store.verifies identity = true := by
  induction identities generalizing s with
  | nil => exact ends_pure ⟨Keeps.refl s, fun _ _ _ none => by cases none⟩
  | cons identity rest ih =>
    have looked : (orFail e (query fun store => store.verifies identity) :
        Service mls Bool).Ends s fun r t => Keeps s t ∧
          ∀ a, r = .ok a → a = s.store.verifies identity := by
      refine Ends.orFail (ends_query.mono fun r t reached => ?_)
      cases r with
      | ok a => exact reached
      | error _ => exact ⟨reached.1, fun a same => by cases same⟩
    refine Ends.bind looked (fun a t reached => ?_)
      (fun _ t reached => ⟨reached.1, fun u same => by cases same⟩)
    obtain ⟨keeps, value⟩ := reached
    have verified := value a rfl
    split
    · rename_i accepted
      refine (ih (s := t)).mono fun r u onward => ⟨keeps.trans onward.1, fun v same other member => ?_⟩
      rcases List.mem_cons.mp member with rfl | later
      · rw [← verified]
        exact accepted
      · rw [← keeps.store]
        exact onward.2 v same other later
    · exact ends_fail ⟨keeps, fun u same => by cases same⟩

theorem ends_loadGroup : (loadGroup room : Service mls mls.Group).Ends s fun r t => Keeps s t ∧
    ∀ group, r = .ok group → s.store.mlsGroups room = some group := by
  refine Ends.orFail (Ends.bind ends_query (fun found t reached => ?_) fun e t reached => ?_)
  · obtain ⟨keeps, value⟩ := reached
    have looked := value found rfl
    refine ends_require (fun group present => ⟨keeps, fun other same => ?_⟩)
      ⟨keeps, fun other same => by cases same⟩
    rw [← Except.ok.inj same, ← looked]
    exact present
  · exact ⟨reached.1, fun group same => by cases same⟩

/-- Reading a group changes the cache only, and never to something the tables do not hold. -/
theorem ends_groupMut (coherent : Coherent s) :
    (groupMut room : Service mls mls.Group).Ends s fun r t => t.store = s.store ∧ Coherent t ∧
      ∀ group, r = .ok group →
        s.store.mlsGroups room = some group ∧ t.groups.lookup room = some group := by
  refine ends_get ?_
  cases cached : s.groups.lookup room with
  | some group =>
    refine ends_pure ⟨rfl, coherent, fun other same => ?_⟩
    obtain rfl := Except.ok.inj same
    exact ⟨coherent room group cached, cached⟩
  | none =>
    have capped : (onlyIf (s.groups.length ≥ 8) dropGroups : Service mls Unit).Ends s
        fun _ t => t.store = s.store ∧ Coherent t := by
      unfold onlyIf
      split
      · refine ends_modify ⟨rfl, fun r g found => ?_⟩
        cases found
      · exact ends_pure ⟨rfl, coherent⟩
    refine Ends.bind capped (fun _ t reached => ?_) fun e t reached =>
      ⟨reached.1, reached.2, fun g same => by cases same⟩
    obtain ⟨store, kept⟩ := reached
    refine Ends.bind ends_loadGroup (fun group u loaded => ?_) fun e u loaded =>
      ⟨loaded.1.store.trans store, loaded.1.coherent kept, fun g same => by cases same⟩
    obtain ⟨keeps, found⟩ := loaded
    refine Ends.bind (ends_verifyMembers _) (fun _ v verified => ?_) fun e v verified =>
      ⟨(keeps.trans verified.1).store.trans store, (keeps.trans verified.1).coherent kept,
        fun g same => by cases same⟩
    have whole := keeps.trans verified.1
    have stored : s.store.mlsGroups room = some group := by
      rw [← store]
      exact found group rfl
    refine ends_modify_then (ends_pure ⟨whole.store.trans store, ?_, fun other same => ?_⟩)
    · intro r g found
      change (v.store).mlsGroups r = some g
      rw [whole.store, store]
      by_cases same : r = room
      · subst same
        rw [List.lookup_cons, beq_self_eq_true] at found
        rw [stored]
        exact found
      · rw [List.lookup_cons, beq_false_of_ne same] at found
        have held := whole.coherent kept r g found
        rw [whole.store, store] at held
        exact held
    · obtain rfl := Except.ok.inj same
      refine ⟨stored, ?_⟩
      change List.lookup room ((room, group) :: v.groups) = some group
      rw [List.lookup_cons, beq_self_eq_true]

/-- A group of `room` is changed in memory and not yet written. -/
structure Staged (store : Store mls) (room : RoomId) (group : mls.Group) (t : Session mls) :
    Prop where
  tables : t.store = store
  cached : t.groups.lookup room = some group
  others : ∀ r g, r ≠ room → t.groups.lookup r = some g → store.mlsGroups r = some g

theorem Staged.keeps {t u : Session mls} (staged : Staged store room group t) (keeps : Keeps t u) :
    Staged store room group u where
  tables := keeps.store.trans staged.tables
  cached := by rw [keeps.groups]; exact staged.cached
  others := by rw [keeps.groups]; exact staged.others

private theorem lookup_set (entries : List (RoomId × mls.Group)) (room r : RoomId)
    (group : mls.Group) :
    (entries.map fun entry => if entry.1 = room then (room, group) else entry).lookup r =
      if r = room then (entries.lookup room).map fun _ => group else entries.lookup r := by
  induction entries with
  | nil => simp
  | cons entry rest ih =>
    rw [List.map_cons, List.lookup_cons, ih, List.lookup_cons, List.lookup_cons]
    by_cases here : entry.1 = room
    · rw [if_pos here]
      by_cases same : r = room
      · simp [same, here]
      · have apart : r ≠ entry.1 := fun equal => same (equal.trans here)
        simp [same, beq_false_of_ne apart, beq_false_of_ne same]
    · rw [if_neg here]
      by_cases same : r = room
      · subst same
        simp [beq_false_of_ne fun equal : r = entry.1 => here equal.symm]
      · simp [same]

theorem staged_of_cached (coherent : Coherent s) (cached : s.groups.lookup room = some group) :
    Staged s.store room group s :=
  ⟨rfl, cached, fun r g _ found => coherent r g found⟩

theorem Staged.set {t : Session mls} (staged : Staged store room group t) :
    Staged store room next { t with groups := t.groups.map fun entry =>
      if entry.1 = room then (room, next) else entry } := by
  refine ⟨staged.tables, ?_, fun r g apart found => ?_⟩
  · change List.lookup room (t.groups.map _) = some next
    rw [lookup_set, if_pos rfl, staged.cached]
    rfl
  · change List.lookup r (t.groups.map _) = some g at found
    rw [lookup_set, if_neg apart] at found
    exact staged.others r g apart found

theorem ends_setGroup (coherent : Coherent s) (cached : s.groups.lookup room = some group) :
    (setGroup room next : Service mls Unit).Ends s fun r t =>
      r = .ok () ∧ Staged s.store room next t :=
  ends_modify ⟨rfl, (staged_of_cached coherent cached).set⟩

theorem yields_setGroup (coherent : Coherent s) (cached : s.groups.lookup room = some group) :
    (setGroup room next : Service mls Unit).Yields s fun _ t => Staged s.store room next t :=
  (ends_setGroup coherent cached).yields.mono fun _ _ reached => reached.2

theorem yields_cacheGroup (coherent : Coherent s) :
    (cacheGroup room group : Service mls Unit).Yields s fun _ t => Staged s.store room group t := by
  refine yields_modify ⟨rfl, ?_, fun r g apart found => ?_⟩
  · change List.lookup room ((room, group) :: s.groups) = some group
    rw [List.lookup_cons, beq_self_eq_true]
  · change List.lookup r ((room, group) :: s.groups) = some g at found
    rw [List.lookup_cons, beq_false_of_ne apart] at found
    exact coherent r g found

theorem yields_groupMut (coherent : Coherent s) :
    (groupMut room : Service mls mls.Group).Yields s fun group t => t.store = s.store ∧ Coherent t ∧
      s.store.mlsGroups room = some group ∧ t.groups.lookup room = some group :=
  (ends_groupMut coherent).yields.mono fun group _ reached =>
    ⟨reached.1, reached.2.1, reached.2.2 group rfl⟩

theorem yields_groupMut_cached (cached : s.groups.lookup room = some group) :
    (groupMut room : Service mls mls.Group).Yields s fun found t => found = group ∧ t = s := by
  refine yields_get ?_
  rw [cached]
  exact yields_pure ⟨rfl, rfl⟩

theorem yields_persist (staged : Staged store room group s) :
    (persist room : Service mls Unit).Yields s fun _ t =>
      Coherent t ∧ t.store = store.writeGroup room group := by
  refine Yields.bind (yields_groupMut_cached staged.cached) fun found t reached => ?_
  obtain ⟨rfl, rfl⟩ := reached
  refine Yields.orFail (yields_get ?_)
  split
  · refine yields_update.mono fun _ u reached => ?_
    obtain ⟨written, groups⟩ := reached
    rw [staged.tables] at written
    refine ⟨fun r g held => ?_, written⟩
    rw [groups] at held
    rw [written]
    by_cases same : r = room
    · subst same
      rw [staged.cached] at held
      rw [← held]
      exact Function.update_self r (some found) store.mlsGroups
    · exact (Function.update_of_ne same (some found) store.mlsGroups).trans
        (staged.others r g same held)
  · exact yields_fail

theorem ends_hasGroup (coherent : Coherent s) :
    (hasGroup room : Service mls Bool).Ends s fun r t => t.store = s.store ∧ Coherent t ∧
      (r = .ok true → ∃ group, s.store.mlsGroups room = some group) := by
  refine ends_attempt (ends_groupMut coherent) fun r t reached => ?_
  obtain ⟨store, kept, found⟩ := reached
  cases r with
  | ok group => exact ends_pure ⟨store, kept, fun _ => ⟨group, (found group rfl).1⟩⟩
  | error _ => exact ends_pure ⟨store, kept, fun same => by cases same⟩

end Operations

section Reading

variable {s t : Session mls} {room : RoomId} {here : Surroundings mls}

/-- The stored group of a room that is not cached cannot be read: storage fails its load or the check of
a member, or a member is not pinned. -/
structure Unread (here : Surroundings mls) (s : Session mls) (room : RoomId) (group : mls.Group) :
    Prop where
  uncached : s.groups.lookup room = none
  stored : s.store.mlsGroups room = some group
  failing : s.poisoned = true ∨ (∃ k ≤ (members group).length, here.fault (s.calls + k) = true) ∨
    ∃ member ∈ members group, s.store.verifies member = false

theorem query_cases (read : Store mls → α) (here : Surroundings mls) (s : Session mls) :
    s.poisoned = true ∨ here.fault s.calls = true ∨
      query read here s = (.ok (read s.store), { s with calls := s.calls + 1 }) := by
  by_cases poisoned : s.poisoned = true
  · exact .inl poisoned
  by_cases faulty : here.fault s.calls = true
  · exact .inr (.inl faulty)
  have called : call here s = (.ok (), { s with calls := s.calls + 1 }) := by
    unfold call
    rw [if_neg poisoned, if_neg faulty]
  exact .inr (.inr (bind_of_ok called))

theorem orFail_of_ok {m : Service mls α} {a : α} (result : m here s = (.ok a, t)) :
    orFail e m here s = (.ok a, t) := by
  have tried : m.attempt here s = (.ok (.ok a), t) := by
    unfold attempt
    rw [result]
  exact bind_of_ok tried

theorem verifyMembers_error {identities : List SigningIdentity} {x : Error}
    (failed : verifyMembers e identities here s = (.error x, t)) :
    s.poisoned = true ∨ (∃ k < identities.length, here.fault (s.calls + k) = true) ∨
      ∃ member ∈ identities, s.store.verifies member = false := by
  induction identities generalizing s with
  | nil => cases (Prod.mk.inj failed).1
  | cons identity rest ih =>
    rcases query_cases (fun store => store.verifies identity) here s with poisoned | faulty | looked
    · exact .inl poisoned
    · exact .inr (.inl ⟨0, Nat.zero_lt_succ _, faulty⟩)
    unfold verifyMembers at failed
    rw [bind_of_ok (orFail_of_ok looked)] at failed
    split at failed
    · rcases ih failed with poisoned | ⟨k, small, faulty⟩ | ⟨member, listed, refused⟩
      · exact .inl poisoned
      · refine .inr (.inl ⟨k + 1, Nat.succ_lt_succ small, ?_⟩)
        rw [Nat.add_comm k, ← Nat.add_assoc]
        exact faulty
      · exact .inr (.inr ⟨member, List.mem_cons_of_mem _ listed, refused⟩)
    · rename_i refused
      exact .inr (.inr ⟨identity, List.mem_cons_self, Bool.eq_false_iff.mpr refused⟩)

theorem loadGroup_cases (here : Surroundings mls) (stored : s.store.mlsGroups room = some group) :
    s.poisoned = true ∨ here.fault s.calls = true ∨
      loadGroup room here s = (.ok group, { s with calls := s.calls + 1 }) := by
  refine (query_cases (fun store => store.mlsGroups room) here s).imp_right (Or.imp_right fun looked => ?_)
  refine orFail_of_ok ((bind_of_ok looked).trans ?_)
  rw [stored]
  rfl

theorem unread_of_error {x : Error} (failed : groupMut room here s = (.error x, t))
    (stored : s.store.mlsGroups room = some group) : Unread here s room group := by
  unfold groupMut at failed
  rw [bind_of_ok (rfl : (Local.get : Service mls _) here s = (.ok s, s))] at failed
  cases cached : s.groups.lookup room with
  | some found =>
    rw [cached] at failed
    cases (Prod.mk.inj failed).1
  | none =>
    rw [cached] at failed
    refine ⟨cached, stored, ?_⟩
    obtain ⟨groups, dropped⟩ : ∃ groups, (onlyIf (s.groups.length ≥ 8) dropGroups : Service mls Unit)
        here s = (.ok (), { s with groups := groups }) := by
      unfold onlyIf
      split
      · exact ⟨[], rfl⟩
      · exact ⟨s.groups, rfl⟩
    dsimp only at failed
    rw [bind_of_ok dropped] at failed
    rcases loadGroup_cases here (s := { s with groups := groups }) stored with poisoned | faulty | loaded
    · exact .inl poisoned
    · exact .inr (.inl ⟨0, Nat.zero_le _, faulty⟩)
    rw [bind_of_ok loaded] at failed
    rcases checked : verifyMembers (.text "stored group contains an unverified or changed member")
      (members group) here { s with groups := groups, calls := s.calls + 1 } with ⟨x | _, u⟩
    · rcases verifyMembers_error checked with poisoned | ⟨k, small, faulty⟩ | refused
      · exact .inl poisoned
      · refine .inr (.inl ⟨k + 1, small, ?_⟩)
        rw [Nat.add_comm k, ← Nat.add_assoc]
        exact faulty
      · exact .inr (.inr refused)
    · rw [bind_of_ok checked] at failed
      cases (Prod.mk.inj failed).1

end Reading

section Changes

def Pins (store : Store mls) (identities : Provider) : Prop :=
  ∀ identity, identities identity = true → store.verifies identity = true

/-- The group of a room that is there, or one this client has created. A stored group is replaced only
where it was `unread`. -/
def Founds (client : mls.MlsClient) (unread : Prop) (store : Store mls) (room : RoomId)
    (next : Store mls) : Prop :=
  (∃ group, store.mlsGroups room = some group ∧ next = store) ∨
    ∃ seed group, ((store.mlsGroups room).isSome = true → unread) ∧
      mls.createGroupWithId client room.bytes.toList seed = .ok group ∧
      next = store.writeGroup room group

def Reports (store : Store mls) (room : RoomId) (epoch : UInt64) : Prop :=
  ∃ group, store.mlsGroups room = some group ∧ epoch = mls.currentEpoch group

def Encrypts (store : Store mls) (room : RoomId) (plaintext aad : Bytes) (epoch : UInt64)
    (bytes : Bytes) (next : Store mls) : Prop :=
  ∃ group seed message after, store.mlsGroups room = some group ∧
    mls.hasPendingCommit group = false ∧
    mls.encryptApplicationMessage group plaintext aad seed = (.ok message, after) ∧
    toWire mls message = some bytes ∧ epoch = mls.currentEpoch group ∧
    next = store.writeGroup room after

/-- A pending commit that adds the member of `package`. -/
def Adds (store : Store mls) (room : RoomId) (package aad : Bytes) (epoch : UInt64)
    (body welcome : Bytes) (next : Store mls) : Prop :=
  ∃ group seed member identities message welcomes first after,
    store.mlsGroups room = some group ∧ mls.hasPendingCommit group = false ∧
    fromWire mls package = some member ∧ Pins store identities ∧
    mls.commitAdd identities group member aad seed = (.ok (message, welcomes), after) ∧
    toWire mls message = some body ∧ welcomes.head? = some first ∧
    toWire mls first = some welcome ∧ epoch = mls.currentEpoch group ∧
    next = store.writeGroup room after

def Discards (store : Store mls) (room : RoomId) (next : Store mls) : Prop :=
  ∃ group, store.mlsGroups room = some group ∧
    next = store.writeGroup room (mls.clearPendingCommit group)

def Merges (store : Store mls) (room : RoomId) (next : Store mls) : Prop :=
  ∃ group identities after, store.mlsGroups room = some group ∧ Pins store identities ∧
    mls.applyPendingCommit identities group = (.ok (), after) ∧ next = store.writeGroup room after

/-- A peer's message that authenticates its event at the group's epoch. -/
def Processes (store : Store mls) (event : Event) (processed : Processed) (next : Store mls) :
    Prop :=
  ∃ incoming group identities received after index outcome leaf,
    fromWire mls event.operation.body = some incoming ∧
    mls.epoch incoming = some event.operation.epoch ∧
    store.mlsGroups event.operation.room = some group ∧
    event.operation.epoch = mls.currentEpoch group ∧ Pins store identities ∧
    mls.processIncomingMessage identities group incoming = (.ok received, after) ∧
    boundOutcome event.operation.contentType event.sender (mls.currentEpoch after) received =
      some (index, eventAuthenticatedData event.operation.room event.id event.operation.parent,
        outcome) ∧
    (mls.roster group).lookup index = some leaf ∧
    leaf.identifier = some event.sender.bytes.toList ∧
    (∀ member ∈ members after, store.verifies member = true) ∧
    processed = withAuthor event.sender.bytes.toList outcome ∧
    next = store.writeGroup event.operation.room after

inductive Refuses (store : Store mls) (event : Event) : Prop
  | unreadable (none : fromWire mls event.operation.body = none)
  | mislabelled (incoming : mls.Message)
      (read : fromWire mls event.operation.body = some incoming)
      (apart : mls.epoch incoming ≠ some event.operation.epoch)
  | stale (group : mls.Group) (held : store.mlsGroups event.operation.room = some group)
      (apart : event.operation.epoch ≠ mls.currentEpoch group)
      (past : ¬event.operation.epoch > mls.currentEpoch group)
  | unprocessable (incoming : mls.Message) (group after : mls.Group) (identities : Provider)
      (read : fromWire mls event.operation.body = some incoming)
      (held : store.mlsGroups event.operation.room = some group)
      (failed : mls.processIncomingMessage identities group incoming = (.error .other, after))
  | unbound (incoming : mls.Message) (group after : mls.Group) (identities : Provider)
      (received : Received) (read : fromWire mls event.operation.body = some incoming)
      (held : store.mlsGroups event.operation.room = some group)
      (processed : mls.processIncomingMessage identities group incoming = (.ok received, after))
      (apart : ∀ index outcome leaf,
        boundOutcome event.operation.contentType event.sender (mls.currentEpoch after) received =
          some (index, eventAuthenticatedData event.operation.room event.id event.operation.parent,
            outcome) →
        (mls.roster group).lookup index = some leaf →
        leaf.identifier ≠ some event.sender.bytes.toList)

def Joins (client : mls.MlsClient) (unread : Prop) (store : Store mls) (room : RoomId) (welcome : Bytes)
    (next : Store mls) : Prop :=
  (∃ group, store.mlsGroups room = some group ∧ next = store) ∨
    ∃ message identities group, ((store.mlsGroups room).isSome = true → unread) ∧
      fromWire mls welcome = some message ∧ Pins store identities ∧
      mls.joinGroup client identities store.mlsPackages message = .ok group ∧
      mls.groupId group = room.bytes.toList ∧
      (∀ member ∈ members group, store.verifies member = true) ∧
      next = store.writeGroup room group

end Changes

end Grotto.Client.Effects
