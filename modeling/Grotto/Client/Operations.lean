/- GID: Grotto/Client/Operations
   digest: Each operation on a room's group changes the tables as its relation says. -/

import Grotto.Client.Habits

set_option autoImplicit false

namespace Grotto.Client.Operations

open Format.Varint (Bytes)
open Protocol.Records
open Base.Program Base.Program.Local
open Library Tables
open Calls Groups Effects Habits

variable {mls : Mls} {s : Session mls} {room : RoomId}

theorem yields_parsed {bytes : Bytes} : (parsed bytes : Service mls mls.Message).Yields s
    fun message t => fromWire mls bytes = some message ∧ t = s :=
  yields_require

theorem yields_serialized {message : mls.Message} : (serialized message : Service mls Bytes).Yields s
    fun bytes t => toWire mls message = some bytes ∧ t = s :=
  yields_require

variable {client : mls.MlsClient} {here : Surroundings mls}

theorem gives_createGroup {unread : Prop}
    (coherent : Coherent s) (admits : (∃ group, Unread here s room group) → unread) :
    (createGroup client room).Gives here s fun epoch t => Coherent t ∧
      Founds client unread s.store room t.store ∧ Reports t.store room epoch := by
  refine gives_attempt fun r t read => ?_
  have reached := (ends_groupMut coherent : (groupMut room).Ends s _) here
  rw [read] at reached
  obtain ⟨store, kept, found⟩ := reached
  cases r with
  | ok group =>
    obtain ⟨held, -⟩ := found group rfl
    refine (yields_pure ⟨kept, .inl ⟨group, held, store⟩, group, ?_, rfl⟩).gives
    rw [store]
    exact held
  | error _ =>
    have unseen : (s.store.mlsGroups room).isSome = true → unread :=
      fun some => admits ⟨_, unread_of_error read (Option.some_get some).symm⟩
    refine (Yields.bind yields_randomness fun seed u keeps => ?_).gives
    refine Yields.bind yields_liftMls fun group v made => ?_
    obtain ⟨made, rfl⟩ := made
    refine Yields.bind (yields_cacheGroup (keeps.coherent kept)) fun _ w staged => ?_
    refine Yields.bind (yields_persist staged) fun _ x written => ?_
    refine yields_pure ⟨written.1, .inr ⟨seed, group, unseen, made, ?_⟩, group, ?_, rfl⟩
    · rw [written.2, keeps.store, store]
    · rw [written.2]
      exact Store.writeGroup_self _ room group

theorem yields_createGroup (coherent : Coherent s) :
    (createGroup client room).Yields s fun _ t =>
      Coherent t ∧ ∃ unread, Founds client unread s.store room t.store := by
  intro here epoch t result
  obtain ⟨kept, founds, -⟩ := gives_createGroup coherent id epoch t result
  exact ⟨kept, _, founds⟩

theorem yields_containsUser {user : UserId} (coherent : Coherent s) :
    (containsUser room user : Service mls Bool).Yields s fun present t =>
      t.store = s.store ∧ Coherent t ∧ ∃ group, s.store.mlsGroups room = some group ∧
        present = (members group).any fun identity =>
          decide (identity.identifier = some user.bytes.toList) := by
  refine Yields.bind (yields_groupMut coherent) fun group t reached => ?_
  obtain ⟨store, kept, held, -⟩ := reached
  exact yields_pure ⟨store, kept, group, held, rfl⟩

theorem yields_encryptBound {plaintext aad : Bytes} (coherent : Coherent s) :
    (encryptBound room plaintext aad : Service mls (UInt64 × Bytes)).Yields s fun made t =>
      Coherent t ∧ Encrypts s.store room plaintext aad made.1 made.2 t.store := by
  refine Yields.bind (yields_groupMut coherent) fun group t reached => ?_
  obtain ⟨store, kept, held, cached⟩ := reached
  split
  · exact yields_fail
  rename_i settled
  refine Yields.bind yields_randomness fun seed u keeps => ?_
  have cached' : u.groups.lookup room = some group := by rw [keeps.groups]; exact cached
  refine Yields.bind (yields_setGroup (keeps.coherent kept) cached') fun _ v staged => ?_
  refine Yields.bind yields_liftMls fun message w result => ?_
  obtain ⟨result, rfl⟩ := result
  refine Yields.bind yields_serialized fun bytes x written => ?_
  obtain ⟨written, rfl⟩ := written
  refine Yields.bind (yields_persist staged) fun _ y saved => ?_
  refine yields_pure ⟨saved.1, group, seed, message, _, held, by simpa using settled,
    Prod.ext result rfl, written, rfl, ?_⟩
  rw [saved.2, keeps.store, store]

theorem yields_buildPendingAdd {package aad : Bytes} (coherent : Coherent s) :
    (buildPendingAdd room package aad : Service mls (UInt64 × Bytes × Bytes)).Yields s fun made t =>
      Coherent t ∧ Adds s.store room package aad made.1 made.2.1 made.2.2 t.store := by
  refine Yields.bind yields_parsed fun member t read => ?_
  obtain ⟨read, rfl⟩ := read
  refine Yields.bind (yields_groupMut coherent) fun group u reached => ?_
  obtain ⟨store, kept, held, cached⟩ := reached
  split
  · exact yields_fail
  rename_i settled
  refine Yields.bind yields_randomness fun seed v seeded => ?_
  refine Yields.bind yields_provider fun identities w provided => ?_
  obtain ⟨keeps, pins⟩ := provided
  have whole := seeded.trans keeps
  have cached' : w.groups.lookup room = some group := by rw [whole.groups]; exact cached
  refine Yields.bind (yields_setGroup (whole.coherent kept) cached') fun _ x staged => ?_
  refine Yields.bind yields_liftMls fun made y result => ?_
  obtain ⟨result, rfl⟩ := result
  refine Yields.bind yields_serialized fun body z written => ?_
  obtain ⟨written, rfl⟩ := written
  refine Yields.bind yields_require fun first z present => ?_
  obtain ⟨present, rfl⟩ := present
  refine Yields.bind yields_serialized fun welcome z sealed => ?_
  obtain ⟨sealed, rfl⟩ := sealed
  refine Yields.bind (yields_persist staged) fun _ z saved => ?_
  refine yields_pure ⟨saved.1, group, seed, member, identities, made.1, made.2, first, _, held,
    by simpa using settled, read, ?_, Prod.ext result rfl, written, present, sealed, rfl, ?_⟩
  · intro identity accepted
    rw [← store, ← seeded.store]
    exact pins identity accepted
  · rw [saved.2, whole.store, store]

theorem yields_discardPending (coherent : Coherent s) :
    (discardPending room : Service mls Unit).Yields s fun _ t =>
      Coherent t ∧ Discards s.store room t.store := by
  refine Yields.bind (yields_groupMut coherent) fun group t reached => ?_
  obtain ⟨store, kept, held, cached⟩ := reached
  refine Yields.bind (yields_setGroup kept cached) fun _ u staged => ?_
  refine (yields_persist staged).mono fun _ v saved => ⟨saved.1, group, held, ?_⟩
  rw [saved.2, store]

theorem yields_applyAcceptedCommit (coherent : Coherent s) :
    (applyAcceptedCommit room : Service mls Unit).Yields s fun _ t =>
      Coherent t ∧ Merges s.store room t.store := by
  refine Yields.bind (yields_groupMut coherent) fun group t reached => ?_
  obtain ⟨store, kept, held, cached⟩ := reached
  refine Yields.bind yields_provider fun identities u provided => ?_
  obtain ⟨keeps, pins⟩ := provided
  have cached' : u.groups.lookup room = some group := by rw [keeps.groups]; exact cached
  refine Yields.bind (yields_setGroup (keeps.coherent kept) cached') fun _ v staged => ?_
  refine Yields.bind yields_liftMls fun _ w result => ?_
  obtain ⟨result, rfl⟩ := result
  refine (yields_persist staged).mono fun _ x saved =>
    ⟨saved.1, group, identities, _, held, ?_, Prod.ext result rfl, ?_⟩
  · intro identity accepted
    rw [← store]
    exact pins identity accepted
  · rw [saved.2, keeps.store, store]

theorem gives_join {welcome : Bytes} {unread : Prop}
    (coherent : Coherent s) (admits : (∃ group, Unread here s room group) → unread) :
    (join client room welcome).Gives here s fun epoch t => Coherent t ∧
      Joins client unread s.store room welcome t.store ∧ Reports t.store room epoch := by
  have looks : (hasGroup room : Service mls Bool).Gives here s fun present t =>
      (t.store = s.store ∧ Coherent t) ∧
        (present = false → (s.store.mlsGroups room).isSome = true → unread) := by
    refine gives_attempt fun r t read => ?_
    have reached := (ends_groupMut coherent : (groupMut room).Ends s _) here
    rw [read] at reached
    cases r with
    | ok group => exact (yields_pure ⟨⟨reached.1, reached.2.1⟩, fun no => nomatch no⟩).gives
    | error _ =>
      refine (yields_pure ⟨⟨reached.1, reached.2.1⟩, fun _ some => ?_⟩).gives
      exact admits ⟨_, unread_of_error read (Option.some_get some).symm⟩
  refine looks.bind fun present t reached => ?_
  obtain ⟨⟨store, kept⟩, unseen⟩ := reached
  refine Yields.gives ?_
  split
  · refine Yields.bind (yields_groupMut kept) fun group u loaded => ?_
    obtain ⟨same, coherent', held, -⟩ := loaded
    rw [← same] at held
    refine yields_pure ⟨coherent', .inl ⟨group, ?_, same.trans store⟩, group, held, rfl⟩
    rw [← store, ← same]
    exact held
  · rename_i absent
    refine Yields.bind yields_parsed fun message u read => ?_
    obtain ⟨read, rfl⟩ := read
    refine Yields.bind ends_call.yields fun _ v called => ?_
    refine Yields.bind yields_provider fun identities w provided => ?_
    obtain ⟨keeps, pins⟩ := provided
    have whole := called.trans keeps
    refine yields_get (Yields.bind yields_liftMls fun group x joined => ?_)
    obtain ⟨joined, rfl⟩ := joined
    split
    · exact yields_fail
    rename_i named
    refine Yields.bind (ends_verifyMembers _).yields fun _ y verified => ?_
    obtain ⟨looked, all⟩ := verified
    have settled := whole.trans looked
    refine Yields.bind (yields_cacheGroup (settled.coherent kept)) fun _ z staged => ?_
    refine Yields.bind (yields_persist staged) fun _ z' saved => ?_
    refine yields_pure ⟨saved.1, .inr ⟨message, identities, group, unseen (Bool.eq_false_iff.mpr absent),
      read, ?_, ?_, ?_, ?_, ?_⟩,
      group, ?_, rfl⟩
    · intro identity accepted
      rw [← store, ← called.store]
      exact pins identity accepted
    · rw [← store, ← whole.store]
      exact joined
    · simpa using named
    · intro member inside
      rw [← store, ← whole.store]
      exact all () rfl member inside
    · rw [saved.2, settled.store, store]
    · rw [saved.2]
      exact Store.writeGroup_self _ room group

theorem yields_join {welcome : Bytes} (coherent : Coherent s) :
    (join client room welcome).Yields s fun _ t =>
      Coherent t ∧ ∃ unread, Joins client unread s.store room welcome t.store := by
  intro here epoch t result
  obtain ⟨kept, joins, -⟩ := gives_join coherent id epoch t result
  exact ⟨kept, _, joins⟩

theorem yields_generateKeyPackages (count : Nat) :
    (generateKeyPackages client count : Service mls (List Bytes)).Yields s fun _ t =>
      t.groups = s.groups ∧ ∃ packages, t.store = { s.store with mlsPackages := packages } := by
  induction count generalizing s with
  | zero => exact yields_pure ⟨rfl, s.store.mlsPackages, rfl⟩
  | succ count ih =>
    refine Yields.bind ends_call.yields fun _ t called => ?_
    refine Yields.bind yields_randomness fun seed u seeded => ?_
    have whole := called.trans seeded
    refine yields_get (Yields.bind yields_liftMls fun made v result => ?_)
    obtain ⟨-, rfl⟩ := result
    refine yields_modify_then (Yields.bind yields_serialized fun bytes w written => ?_)
    obtain ⟨-, rfl⟩ := written
    refine Yields.bind ih fun rest x generated => ?_
    obtain ⟨groups, packages, store⟩ := generated
    refine yields_pure ⟨groups.trans whole.groups, packages, ?_⟩
    rw [store, whole.store]

section Plain

variable {α : Type}

/-- An error of the computation is never a verdict about an event. -/
def Plain (m : Service mls α) : Prop :=
  ∀ s, m.Ends s fun r _ => ∀ fault, r ≠ .error (.processing fault)

def plainly : Manner mls where
  moves _ _ := True
  raises e := ∀ fault, e ≠ .processing fault
  stay _ := trivial
  join _ _ _ _ _ := trivial
  counts _ _ := trivial
  caches _ _ := trivial
  storage _ := by simp
  library _ := by simp
  encoding := by simp
  decoding := by simp
  texts _ _ := by simp

theorem plain_of_minds {m : Service mls α} (minds : m.Minds plainly.toHabit) : Plain m := fun s =>
  (minds s).mono fun _ _ ended fault failed => ended.2 _ failed fault rfl

theorem plain_begin : Plain (begin : Service mls Unit) := plain_of_minds (minds_begin fun _ _ _ => trivial)

theorem plain_committed (value : α) : Plain (do commit; pure value : Service mls α) :=
  plain_of_minds ((minds_commit fun _ _ _ => trivial).bind fun _ => minds_pure value)

theorem orFail_error {e x : Error} {m : Service mls α} {here : Surroundings mls}
    {s t : Session mls} (result : m here s = (.error x, t)) : orFail e m here s = (.error e, t) := by
  unfold orFail
  have tried : m.attempt here s = (.ok (.error x), t) := by
    unfold Local.attempt
    rw [result]
  rw [bind_of_ok tried]
  rfl

theorem ends_atomic_fault {operation : Service mls α} {admissible : ProcessingFault → Prop}
    (fails : ∀ t, Keeps s t → operation.Ends t fun r _ =>
      ∀ fault, r = .error (.processing fault) → admissible fault) :
    (atomic operation).Ends s fun r _ =>
      ∀ fault, r = .error (.processing fault) → admissible fault := by
  intro here fault failed
  have start := ends_begin (s := s) here
  have opening := plain_begin s here fault
  unfold atomic at failed
  rcases begun : begin here s with ⟨error | _, t⟩
  · rw [begun] at failed opening
    obtain rfl := Except.error.inj failed
    exact absurd rfl opening
  rw [begun] at failed start
  have closed : (do let value ← operation; commit; pure value : Service mls α).Ends t fun r _ =>
      ∀ fault, r = .error (.processing fault) → admissible fault := by
    refine Ends.bind (fails t start) (fun value u _ => ?_) fun error u reached other same =>
      reached other (congrArg Except.error (Except.error.inj same))
    exact (plain_committed value u).mono fun r _ never other same => absurd same (never other)
  have result := closed here fault
  rcases ended : (do let value ← operation; commit; pure value : Service mls α) here t with
    ⟨error | value, u⟩
  · simp only [ended] at failed
    rw [ended] at result
    exact result failed
  · simp only [ended] at failed
    cases failed

end Plain

section Processing

variable {event : Event}

private theorem verifyMembers_error {e : Error} (identities : List SigningIdentity) :
    (verifyMembers e identities : Service mls Unit).Ends s fun r _ => ∀ x, r = .error x → x = e := by
  induction identities generalizing s with
  | nil => exact ends_pure fun _ same => by cases same
  | cons identity rest ih =>
    have looked : (orFail e (query fun store => store.verifies identity) :
        Service mls Bool).Ends s fun r _ => ∀ x, r = .error x → x = e := by
      refine Ends.orFail fun here => ?_
      rcases query (fun store : Store mls => store.verifies identity) here s with ⟨_ | _, t⟩
      · exact fun x same => (Except.error.inj same).symm
      · exact fun x same => by cases same
    refine Ends.bind looked (fun a t _ => ?_) fun x t reached y same => ?_
    · split
      · exact ih
      · exact ends_fail fun x same => (Except.error.inj same).symm
    · obtain rfl := Except.error.inj same
      exact reached x rfl

/-- What processing a peer's event does, and why it ends in a rejection. -/
theorem ends_processBound (coherent : Coherent s) :
    (processBound event : Service mls Processed).Ends s fun r t =>
      (∀ processed, r = .ok processed → Coherent t ∧ Processes s.store event processed t.store) ∧
      (r = .error (.processing .rejected) → Refuses s.store event) := by
  have stopped : ∀ (e : Error) (t : Session mls), (e = .processing .rejected → Refuses s.store event) →
      (∀ processed, (.error e : Except Error Processed) = .ok processed →
        Coherent t ∧ Processes s.store event processed t.store) ∧
      ((.error e : Except Error Processed) = .error (.processing .rejected) → Refuses s.store event) :=
    fun e t refuses => ⟨fun _ same => (nomatch same), fun same => refuses (Except.error.inj same)⟩
  refine ends_require_then (fun incoming read => ?_) fun none => stopped _ _ fun _ => .unreadable none
  split
  · rename_i apart
    exact ends_fail (stopped _ _ fun _ => .mislabelled incoming read apart)
  rename_i labelled
  refine Ends.bind ((ends_groupMut coherent).and (plain_of_minds minds_groupMut s))
    (fun group t reached => ?_)
    fun e t reached => stopped e t fun same => absurd (congrArg _ same) (reached.2 _)
  obtain ⟨⟨store, kept, found⟩, -⟩ := reached
  obtain ⟨held, cached⟩ := found group rfl
  split
  · rename_i apart
    split
    · exact ends_fail (stopped _ _ fun same => by cases same)
    · rename_i past
      exact ends_fail (stopped _ _ fun _ => .stale group held apart past)
  rename_i current
  refine Ends.bind (ends_call.and (plain_of_minds minds_call t)) (fun _ u called => ?_)
    fun e u called => stopped e u fun same => absurd (congrArg _ same) (called.2 _)
  obtain ⟨called, -⟩ := called
  refine Ends.bind ends_provider (fun identities v provided => ?_) fun e v provided => ?_
  swap
  · obtain ⟨-, _, same, -⟩ := provided
    cases same
  obtain ⟨keeps, _, same, pins⟩ := provided
  obtain rfl := Except.ok.inj same
  have whole := called.trans keeps
  have cached' : v.groups.lookup event.operation.room = some group := by
    rw [whole.groups]
    exact cached
  have pinned : Pins s.store identities := by
    intro identity accepted
    rw [← store, ← called.store]
    exact pins identity accepted
  refine Ends.bind (ends_setGroup (whole.coherent kept) cached') (fun _ w staged => ?_)
    fun e w staged => by cases staged.1
  obtain ⟨-, staged⟩ := staged
  have tables : v.store = s.store := whole.store.trans store
  refine ends_ofExcept_then (fun received result => ?_) fun e failed => ?_
  swap
  · refine stopped e w fun same => ?_
    obtain rfl := same
    refine .unprocessable incoming group _ identities read held (Prod.ext ?_ rfl)
    cases result : (mls.processIncomingMessage identities group incoming).1 with
    | ok received =>
      rw [result] at failed
      cases failed
    | error cause =>
      rw [result] at failed
      cases cause with
      | other => rfl
      | identityProvider => cases failed
      | groupStorage => cases failed
  have processed : mls.processIncomingMessage identities group incoming =
      (.ok received, (mls.processIncomingMessage identities group incoming).2) :=
    Prod.ext (mapError_ok result) rfl
  have unbound := Refuses.unbound incoming group _ identities received read held processed
  refine ends_require_then (fun bound binds => ?_) fun none => stopped _ w fun _ =>
    unbound fun _ _ _ binds => by rw [none] at binds; cases binds
  obtain ⟨index, aad, outcome⟩ := bound
  refine ends_require_then (fun leaf member => ?_) fun none => stopped _ w fun _ =>
    unbound fun other _ _ bound' member => ?_
  swap
  · rw [binds] at bound'
    obtain ⟨rfl, -⟩ := Prod.mk.inj (Option.some.inj bound')
    rw [none] at member
    cases member
  refine ends_require_then (fun actual named => ?_) fun none => stopped _ w fun _ =>
    unbound fun other _ _ bound' member' => ?_
  swap
  · rw [binds] at bound'
    obtain ⟨rfl, -⟩ := Prod.mk.inj (Option.some.inj bound')
    rw [member] at member'
    obtain rfl := Option.some.inj member'
    rw [none]
    exact fun same => by cases same
  split
  · rename_i apart
    refine ends_fail (stopped _ w fun _ => unbound fun other _ _ bound' member' same => ?_)
    rw [binds] at bound'
    obtain ⟨rfl, rest⟩ := Prod.mk.inj (Option.some.inj bound')
    rw [member] at member'
    obtain rfl := Option.some.inj member'
    rw [named] at same
    rcases apart with author | data
    · exact author (Option.some.inj same)
    · exact data (Prod.mk.inj rest).1
  · rename_i agrees
    rw [not_or, not_not, not_not] at agrees
    obtain ⟨rfl, rfl⟩ := agrees
    refine Ends.bind ((ends_verifyMembers _).and (verifyMembers_error _)) (fun _ x verified => ?_)
      fun e x verified => ?_
    swap
    · obtain rfl := verified.2 e rfl
      exact stopped _ x fun same => by cases same
    obtain ⟨⟨looked, all⟩, -⟩ := verified
    refine Ends.bind ((yields_persist (staged.keeps looked)).ends.and
      (plain_of_minds (minds_persist fun _ _ _ => trivial) x))
      (fun _ y saved => ?_) fun e y saved => stopped e y fun same =>
        absurd (congrArg _ same) (saved.2 _)
    obtain ⟨coherent', written⟩ := saved.1 () rfl
    refine ends_pure ⟨fun made same => ?_, fun same => by cases same⟩
    obtain rfl := Except.ok.inj same
    refine ⟨coherent', incoming, group, identities, received, _, index, outcome, leaf, read, ?_,
      held, ?_, pinned, processed, binds, member, named, ?_, rfl, ?_⟩
    · simpa using labelled
    · simpa using current
    · intro other inside
      rw [← tables, ← staged.tables]
      exact all () rfl other inside
    · rw [written, tables]

end Processing

end Grotto.Client.Operations
