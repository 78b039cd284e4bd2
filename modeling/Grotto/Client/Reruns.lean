/- GID: Grotto/Client/Reruns
   digest: Processing an event depends on the tables alone, and its verdict on no storage failure. -/

import Grotto.Client.Actions
import Grotto.Client.Working

set_option autoImplicit false

namespace Grotto.Client.Reruns

open Protocol.Records
open Base.Program Base.Program.Local
open Contacts Library Tables
open Calls Groups Effects Habits Operations
open Delivery Working

variable {mls : Mls} {α : Type}

variable {m body : Service mls α}

section Connection

variable {s : Session mls}

theorem quiet_steadily : Quiet (steadily : Manner mls) := fun _ _ _ => ⟨rfl, rfl⟩

theorem steady_call : Steady (call : Service mls Unit) := steady_of_minds minds_call

theorem steady_query (read : Store mls → α) : Steady (query read) := steady_of_minds minds_query

variable {e : Engine mls} {event : Event}

theorem steady_finishEvent (state : ProcessingState) : Steady (finishEvent e event state) :=
  steady_of_minds (minds_finishEvent quiet_steadily)

/-- A connection that closed is done for; otherwise no transaction is left open. -/
def Rests (s : Session mls) : Prop := s.poisoned = true ∨ Stands false s

theorem rests_rollback (here : Surroundings mls) (before : Store mls) (s : Session mls) :
    Rests (rollback here before s) := by
  unfold rollback
  split
  · rename_i closed
    exact .inl closed
  · rename_i open_
    split
    · exact .inl rfl
    · exact .inr ⟨rfl, by simpa using open_⟩

theorem rests_begin (rests : Rests s) :
    (begin : Service mls Unit).Ends s fun r t =>
      (∀ e, r = .error e → Rests t) ∧ ∀ u, r = .ok u → Stands true t := by
  refine ends_get ?_
  split
  · exact ends_fail ⟨fun _ _ => rests, fun _ same => nomatch same⟩
  rename_i open_
  have stands : Stands false s := rests.resolve_left open_
  split
  · exact ends_fail ⟨fun _ _ => rests, fun _ same => nomatch same⟩
  refine Ends.bind (steady_call s) (fun _ t kept => ?_) fun _ t kept => ?_
  swap
  · exact ⟨fun _ _ => .inr ⟨kept.1.trans stands.owner, kept.2.trans stands.poisoned⟩,
      fun _ same => nomatch same⟩
  exact ends_modify ⟨fun _ same => (nomatch same),
    fun _ _ => ⟨rfl, kept.2.trans stands.poisoned⟩⟩

theorem stands_commit (stands : Stands true s) :
    (commit : Service mls Unit).Yields s fun _ t => Stands false t := by
  refine Yields.bind (steady_call s).yields fun _ t called => ?_
  exact yields_modify ⟨rfl, called.2.trans stands.poisoned⟩

theorem stands_committed (steady : Steady body) (stands : Stands true s) :
    (do let value ← body; commit; pure value : Service mls α).Yields s fun _ t => Stands false t := by
  refine Yields.bind (steady s).yields fun a t kept => ?_
  have inside : Stands true t := ⟨kept.1.trans stands.owner, kept.2.trans stands.poisoned⟩
  exact Yields.bind (stands_commit inside) fun _ _ closed => yields_pure closed

theorem rests_transaction (steady : Steady body) (rests : Rests s) :
    (transaction body).Ends s fun _ t => Rests t := by
  intro here
  have start := rests_begin rests here
  unfold transaction
  rcases opening : begin here s with ⟨_ | _, t⟩ <;> rw [opening] at start
  · exact start.1 _ rfl
  rcases closing : (do let value ← body; commit; pure value : Service mls α) here t with ⟨_ | a, u⟩
  · simp only [closing]
    exact rests_rollback here s.store u
  · simp only [closing]
    exact .inr (stands_committed steady (start.2 _ rfl) here a u closing)

theorem rests_atomic {operation : Service mls α} (steady : Steady operation)
    (rests : Rests s) : (atomic operation).Ends s fun _ t => Rests t := by
  intro here
  obtain ⟨groups, same⟩ := atomic_eq operation here s
  rw [same]
  exact (rests_transaction steady rests here).imp id fun stands => ⟨stands.owner, stands.poisoned⟩

theorem rests_steady (steady : Steady m) (rests : Rests s) : m.Ends s fun _ t => Rests t :=
  (steady s).mono fun _ _ kept => rests.imp (fun closed => kept.2.trans closed)
    fun stands => ⟨kept.1.trans stands.owner, kept.2.trans stands.poisoned⟩

theorem rests_applyEvent (rests : Rests s) : (applyEvent e event).Ends s fun _ t => Rests t := by
  refine Ends.bind (rests_steady (steady_query _) rests) (fun current t rests => ?_) fun _ _ rests => rests
  split
  · exact ends_fail rests
  refine Ends.bind (rests_steady (steady_query _) rests) (fun own u rests => ?_) fun _ _ rests => rests
  have settling : (settleEvent e event own).Ends u fun _ v => Rests v :=
    rests_atomic (steady_of_minds ((minds_effect quiet_steadily fun _ => trivial).bind fun _ =>
      minds_finishEvent quiet_steadily)) rests
  refine ends_attempt settling fun r v rests => ?_
  split
  · exact rests_steady (steady_of_minds ((minds_onlyIf minds_call).bind fun _ => minds_pure true)) rests
  · exact rests_steady (steady_of_minds ((minds_update fun s => quiet_steadily s _ rfl).bind fun _ =>
      minds_pure false)) rests
  · refine Ends.bind (rests_transaction (steady_finishEvent .rejected) rests)
      (fun _ w rests => ends_pure rests) fun _ _ rests => rests
  · exact ends_fail rests

end Connection

variable {here : Surroundings mls} {write : Store mls → Store mls}

section SideBySide

variable {e : Error}

/-- Two runs of one computation. In the second storage works; in the first it does too, or the
run may leave the comparison with any error but a rejection. -/
def contrast (rough : Bool) : Contrast (Surroundings mls) Error where
  first here := rough = true ∨ Works here
  second := Works
  excused e := rough = true ∧ e ≠ .processing .rejected

/-- Relations that do not look at the count of calls and hold between open connections. -/
structure Even (related : Session mls → Session mls → Prop) : Prop where
  counts : ∀ s t m n, related s t → related { s with calls := m } { t with calls := n }
  openings : ∀ s t, related s t → s.poisoned = false ∧ t.poisoned = false

variable {rough : Bool} {related next : Session mls → Session mls → Prop}

theorem call_ok {s : Session mls} (standing : s.poisoned = false)
    (sound : here.fault s.calls = false) :
    call here s = (.ok (), { s with calls := s.calls + 1 }) := by
  unfold call
  rw [if_neg (by simp [standing]), if_neg (by simp [sound])]

theorem call_error {s : Session mls} (standing : s.poisoned = false)
    (failed : here.fault s.calls = true) :
    call here s = (.error (.store .database), { s with calls := s.calls + 1 }) := by
  unfold call
  rw [if_neg (by simp [standing]), if_pos failed]

theorem matches_call (even : Even related) :
    Matches (contrast rough) related (call : Service mls Unit) call fun r s t =>
      r = .ok () ∧ related s t := by
  intro h k s t fits works both
  obtain ⟨one, two⟩ := even.openings s t both
  rw [call_ok two (works t.calls)]
  cases failed : h.fault s.calls with
  | false =>
    rw [call_ok one failed]
    exact .inr ⟨rfl, rfl, even.counts s t _ _ both⟩
  | true =>
    rw [call_error one failed]
    rcases fits with lenient | sound
    · exact .inl ⟨_, rfl, lenient, nofun⟩
    · rw [sound] at failed
      cases failed

theorem matches_query (even : Even related) {read : Store mls → α}
    (same : ∀ s t, related s t → read s.store = read t.store) :
    Matches (contrast rough) related (query read) (query read) fun r s t =>
      (∃ a, r = .ok a) ∧ related s t := by
  refine (matches_call even).bind (fun _ h k s t _ _ both => ?_) fun _ _ _ both => ?_
  · exact .inr ⟨congrArg Except.ok (same s t both.2), ⟨_, rfl⟩, both.2⟩
  · cases both.1

theorem matches_update (even : Even related)
    (onward : ∀ s t, related s t →
      next { s with store := write s.store } { t with store := write t.store }) :
    Matches (contrast rough) related (update write) (update write) fun r s t =>
      r = .ok () ∧ next s t := by
  refine (matches_call even).bind (fun _ => matches_modify fun s t both => ?_) fun _ _ _ both => ?_
  · exact ⟨rfl, onward s t both.2⟩
  · cases both.1

theorem matches_require {o : Option α} :
    Matches (contrast rough) related (require e o : Service mls α) (require e o) fun _ => related := by
  cases o with
  | some a => exact matches_pure fun _ _ both => both
  | none => exact matches_fail fun _ _ both => both

theorem matches_orFail (other : e ≠ .processing .rejected)
    (matching : Matches (contrast rough) related m m fun _ => next) :
    Matches (contrast rough) related (orFail e m) (orFail e m) fun _ => next := by
  intro h k s t fits works both
  have reached := matching h k s t fits works both
  rcases one : m h s with ⟨x | a, s'⟩ <;> rw [one] at reached
  · rw [orFail_error one]
    rcases reached with ⟨_, -, lenient, -⟩ | ⟨same, reached⟩
    · exact .inl ⟨e, rfl, lenient, other⟩
    · have two : m k t = (.error x, (m k t).2) := Prod.ext same.symm rfl
      rw [orFail_error two]
      exact .inr ⟨rfl, reached⟩
  · rw [orFail_of_ok one]
    rcases reached with ⟨_, same, -⟩ | ⟨same, reached⟩
    · cases same
    · have two : m k t = (.ok a, (m k t).2) := Prod.ext same.symm rfl
      rw [orFail_of_ok two]
      exact .inr ⟨rfl, reached⟩

theorem matches_verifyMembers (even : Even related) (other : e ≠ .processing .rejected)
    (same : ∀ s t, related s t → s.store.verifies = t.store.verifies)
    (identities : List SigningIdentity) :
    Matches (contrast rough) related (verifyMembers e identities : Service mls Unit)
      (verifyMembers e identities) fun _ => related := by
  induction identities with
  | nil => exact matches_pure fun _ _ both => both
  | cons identity rest ih =>
    have looked : Matches (contrast rough) related
        (query fun store : Store mls => store.verifies identity)
        (query fun store => store.verifies identity) fun _ => related :=
      (matches_query even fun s t both => congrFun (same s t both) identity).mono
        (fun _ _ both => both) fun _ _ _ both => both.2
    refine (matches_orFail other looked).bind (fun verified => ?_) fun _ _ _ both => both
    split
    · exact ih
    · exact matches_fail fun _ _ both => both

def blank (id : MessageId) (store : Store mls) : Store mls := store.setInboxState id .blocked

structure Level (id : MessageId) (s t : Session mls) : Prop where
  tables : blank id s.store = blank id t.store
  owner : s.owner = t.owner
  first : s.poisoned = false
  second : t.poisoned = false

variable {id : MessageId} {room : RoomId} {s t : Session mls}

theorem Level.groups (level : Level id s t) : s.store.mlsGroups = t.store.mlsGroups :=
  (congrArg Store.mlsGroups level.tables :)

theorem Level.verifies (level : Level id s t) : s.store.verifies = t.store.verifies := by
  have contacts : s.store.verifiedContacts = t.store.verifiedContacts :=
    (congrArg Store.verifiedContacts level.tables :)
  funext identity
  unfold Store.verifies Store.verify
  rw [contacts]

theorem even_level : Even (Level id : Session mls → Session mls → Prop) where
  counts _ _ _ _ level := ⟨level.tables, level.owner, level.first, level.second⟩
  openings _ _ level := ⟨level.first, level.second⟩

def Rostered (store : Store mls) : Prop :=
  ∀ room group, store.mlsGroups room = some group →
    ∀ member ∈ members group, store.verifies member = true

structure Ready (id : MessageId) (s t : Session mls) : Prop extends Level id s t where
  left : Coherent s
  right : Coherent t
  rostered : Rostered s.store

structure Abreast (id : MessageId) (room : RoomId) (group : mls.Group) (s t : Session mls) : Prop
    extends Level id s t where
  left : Staged s.store room group s
  right : Staged t.store room group t

theorem even_abreast {group : mls.Group} : Even (Abreast id room group) where
  counts s t m n paired := by
    refine ⟨even_level.counts s t m n paired.toLevel, ?_, ?_⟩
    · exact paired.left.keeps ⟨rfl, rfl⟩
    · exact paired.right.keeps ⟨rfl, rfl⟩
  openings _ _ paired := ⟨paired.first, paired.second⟩

theorem groupMut_missing (works : Works here) {owner : Bool} (stands : Stands owner s)
    (coherent : Coherent s) (missing : s.store.mlsGroups room = none) :
    (groupMut room here s).1 = .error (.text "no local MLS group for room") := by
  have uncached : s.groups.lookup room = none := by
    cases cached : s.groups.lookup room with
    | none => rfl
    | some group =>
      rw [coherent room group cached] at missing
      cases missing
  have loads : ∀ u : Session mls, u.store = s.store → Stands owner u →
      ∃ v, loadGroup room here u = (.error (.text "no local MLS group for room"), v) := by
    intro u tables standing
    obtain ⟨found, v, read, value, -⟩ := returns_query works standing fun store =>
      store.mlsGroups room
    rw [tables, missing] at value
    subst value
    refine ⟨v, orFail_error (x := .text "no local MLS group for room") ?_⟩
    rw [bind_of_ok read]
    rfl
  have capped : ∃ u, (onlyIf (s.groups.length ≥ 8) dropGroups : Service mls Unit) here s =
      (.ok (), u) ∧ u.store = s.store ∧ Stands owner u := by
    unfold onlyIf
    split
    · exact ⟨_, rfl, rfl, stands.owner, stands.poisoned⟩
    · exact ⟨_, rfl, rfl, stands⟩
  obtain ⟨u, dropped, tables, standing⟩ := capped
  obtain ⟨v, failed⟩ := loads u tables standing
  unfold groupMut
  rw [bind_of_ok (rfl : Local.get here s = (.ok s, s)), uncached]
  dsimp only
  rw [bind_of_ok dropped, bind_of_error failed]

theorem matches_groupMut :
    Matches (contrast rough) (Ready id) (groupMut room : Service mls mls.Group) (groupMut room)
      fun r s t => Level id s t ∧ ∀ group, r = .ok group → Abreast id room group s t := by
  intro h k s t fits works ready
  have stands : Stands t.owner t := ⟨rfl, ready.second⟩
  have ends := @ends_groupMut _ s room ready.left h
  have steady := (steady_of_minds minds_groupMut : Steady (groupMut room)) s h
  have others := @ends_groupMut _ t room ready.right k
  have standing := (steady_of_minds minds_groupMut : Steady (groupMut room)) t k
  have level : Level id (groupMut room h s).2 (groupMut room k t).2 := by
    refine ⟨?_, ?_, steady.2.trans ready.first, standing.2.trans ready.second⟩
    · rw [ends.1, others.1]
      exact ready.tables
    · rw [steady.1, standing.1]
      exact ready.owner
  cases one : (groupMut room h s).1 with
  | ok group =>
    obtain ⟨held, cached⟩ := ends.2.2 group one
    have known : Known t.store room group := by
      refine ⟨?_, ?_⟩
      · rw [← ready.groups]
        exact held
      · rw [← ready.verifies]
        exact ready.rostered room group held
    obtain ⟨found, u, read, rfl, -⟩ := returns_groupMut works stands ready.right known
    refine .inr ⟨?_, level, fun other same => ?_⟩
    · rw [read]
    · have two : (groupMut room k t).1 = .ok found := by rw [read]
      obtain rfl := Except.ok.inj same
      exact ⟨level, staged_of_cached ends.2.1 cached,
        staged_of_cached others.2.1 (others.2.2 _ two).2⟩
  | error x =>
    rcases fits with lenient | sound
    · refine .inl ⟨x, rfl, lenient, fun rejected => ?_⟩
      rw [rejected] at one
      exact plain_of_minds minds_groupMut s h _ one
    cases held : s.store.mlsGroups room with
    | some group =>
      have known : Known s.store room group := ⟨held, ready.rostered room group held⟩
      obtain ⟨found, u, read, -⟩ :=
        returns_groupMut sound ⟨rfl, ready.first⟩ ready.left known
      rw [read] at one
      cases one
    | none =>
      have absent : t.store.mlsGroups room = none := by
        rw [← ready.groups]
        exact held
      have missed := groupMut_missing sound ⟨rfl, ready.first⟩ ready.left held
      rw [one] at missed
      rw [missed, groupMut_missing works stands ready.right absent]
      exact .inr ⟨rfl, level, fun _ same => nomatch same⟩

variable {group : mls.Group}

theorem matches_setGroup {other : mls.Group} :
    Matches (contrast rough) (Abreast id room group) (setGroup room other : Service mls Unit)
      (setGroup room other) fun r s t => r = .ok () ∧ Abreast id room other s t :=
  matches_modify fun _ _ paired => ⟨rfl, ⟨paired.tables, paired.owner, paired.first, paired.second⟩,
    paired.left.set, paired.right.set⟩

theorem matches_provider {f g : Provider → Service mls α}
    {after : Except Error α → Session mls → Session mls → Prop} (even : Even related)
    (same : ∀ s t, related s t → s.store.verifies = t.store.verifies)
    (rest : ∀ p q : Provider, (∀ identity, p identity = true → q identity = true) →
      (rough = false → p = q) → Matches (contrast rough) related (f p) (g q) after) :
    Matches (contrast rough) related (provider >>= f) (provider >>= g) after := by
  intro h k s t fits works both
  obtain ⟨one, two⟩ := even.openings s t both
  have verifies := same s t both
  refine rest (fun identity => !s.poisoned && !h.fault s.calls && s.store.verifies identity)
    (fun identity => !t.poisoned && !k.fault t.calls && t.store.verifies identity) ?_ ?_ h k
    { s with calls := s.calls + 1 } { t with calls := t.calls + 1 } fits works
    (even.counts s t _ _ both)
  · intro identity accepted
    rw [Bool.and_eq_true] at accepted
    rw [two, works t.calls, ← verifies]
    exact accepted.2
  · intro strict
    have sound : Works h := fits.resolve_left (by rw [strict]; exact Bool.false_ne_true)
    funext identity
    rw [one, two, works t.calls, sound s.calls, verifies]

theorem groupMut_cached (cached : s.groups.lookup room = some group) :
    groupMut room here s = (.ok group, s) := by
  unfold groupMut
  rw [bind_of_ok (rfl : Local.get here s = (.ok s, s)), cached]
  rfl

theorem matches_persist :
    Matches (contrast rough) (Abreast id room group) (persist room : Service mls Unit)
      (persist room) fun _ => Level id := by
  have reads : Matches (contrast rough) (Abreast id room group)
      (groupMut room : Service mls mls.Group) (groupMut room) fun r s t =>
        r = .ok group ∧ Abreast id room group s t := by
    intro h k s t _ _ paired
    rw [groupMut_cached paired.left.cached, groupMut_cached paired.right.cached]
    exact .inr ⟨rfl, rfl, paired⟩
  refine reads.bind (fun found => ?_) fun _ _ _ both => both.2.toLevel
  have storage : Error.mls .groupStorage ≠ .processing .rejected := nofun
  refine matches_orFail storage (matches_get fun s t both => ?_)
  obtain ⟨same, paired⟩ := both
  obtain rfl := Except.ok.inj same
  have pinned : ∀ u v, u = s ∧ v = t → Abreast id room found u v := by
    rintro u v ⟨rfl, rfl⟩
    exact paired
  rw [paired.owner]
  split
  · refine (matches_update even_abreast fun u v both => ?_).mono pinned fun _ _ _ reached => reached.2
    refine ⟨?_, both.owner, both.first, both.second⟩
    exact congrArg (fun store => store.writeGroup room found) both.tables
  · exact matches_fail fun u v both => (pinned u v both).toLevel

/-- A refused identity shows as the provider's error and changes no other outcome. -/
def Blames (mls : Mls) : Prop :=
  ∀ (p q : Provider) (group : mls.Group) (message : mls.Message),
    (∀ identity, p identity = true → q identity = true) →
    (mls.processIncomingMessage p group message).1 ≠ .error .identityProvider →
    (mls.processIncomingMessage p group message).1 ≠ .error .groupStorage →
    mls.processIncomingMessage q group message = mls.processIncomingMessage p group message

theorem matches_processBound {event : Event} (blames : rough = true → Blames mls) :
    Matches (contrast rough) (Ready id) (processBound event : Service mls Processed)
      (processBound event) fun _ => Level id := by
  refine matches_require.bind (fun incoming => ?_) fun _ _ _ ready => ready.toLevel
  split
  · exact matches_fail fun _ _ ready => ready.toLevel
  refine matches_groupMut.bind (fun group => ?_) fun _ _ _ reached => reached.1
  refine Matches.mono ?_ (fun s t reached => reached.2 group rfl) fun _ _ _ level => level
  split
  · split
    · exact matches_fail fun _ _ paired => paired.toLevel
    · exact matches_fail fun _ _ paired => paired.toLevel
  refine (matches_call even_abreast).bind (fun _ => ?_) fun _ _ _ both => both.2.toLevel
  refine Matches.mono ?_ (fun s t both => both.2) fun _ _ _ level => level
  refine matches_provider even_abreast (fun s t paired => paired.verifies) fun p q narrower strict => ?_
  by_cases same : mls.processIncomingMessage q group incoming =
      mls.processIncomingMessage p group incoming
  · rw [same]
    generalize mls.processIncomingMessage p group incoming = outcome
    obtain ⟨result, next⟩ := outcome
    refine matches_setGroup.bind (fun _ => ?_) fun _ _ _ both => both.2.toLevel
    refine Matches.mono ?_ (fun s t both => both.2) fun _ _ _ level => level
    refine matches_ofExcept.bind (fun received => ?_) fun _ _ _ paired => paired.toLevel
    refine matches_require.bind (fun bound => ?_) fun _ _ _ paired => paired.toLevel
    refine matches_require.bind (fun leaf => ?_) fun _ _ _ paired => paired.toLevel
    refine matches_require.bind (fun actual => ?_) fun _ _ _ paired => paired.toLevel
    split
    · exact matches_fail fun _ _ paired => paired.toLevel
    have blocked : Error.processing .blocked ≠ .processing .rejected := nofun
    refine (matches_verifyMembers even_abreast blocked (fun s t paired => paired.verifies) _).bind
      (fun _ => ?_) fun _ _ _ paired => paired.toLevel
    exact matches_persist.bind (fun _ => matches_pure fun _ _ level => level) fun _ _ _ level => level
  · -- The provider's refusal is what the first run fails with, and that is no rejection.
    have lenient : rough = true := by
      cases rough with
      | true => rfl
      | false => exact absurd (by rw [strict rfl]) same
    intro h k s t _ _ _
    rcases outcome : mls.processIncomingMessage p group incoming with ⟨result, next⟩
    have failed : result = .error .identityProvider ∨ result = .error .groupStorage := by
      by_contra neither
      rw [not_or] at neither
      have law := blames lenient p q group incoming narrower
      rw [outcome] at law
      rw [outcome] at same
      exact same (law neither.1 neither.2)
    rcases failed with rfl | rfl
    · exact .inl ⟨.processing .blocked, rfl, lenient, nofun⟩
    · exact .inl ⟨.mls .groupStorage, rfl, lenient, nofun⟩

end SideBySide

variable {own : Option OutboxRow}

section Events

variable {id : MessageId} {e : Engine mls} {event : Event} {rough : Bool}
variable {related : Session mls → Session mls → Prop} {s t : Session mls} {state : ProcessingState}

theorem matches_applyAcceptedCommit {room : RoomId} :
    Matches (contrast false) (Ready id) (applyAcceptedCommit room : Service mls Unit)
      (applyAcceptedCommit room) fun _ => Level id := by
  refine matches_groupMut.bind (fun group => ?_) fun _ _ _ reached => reached.1
  refine Matches.mono ?_ (fun s t reached => reached.2 group rfl) fun _ _ _ level => level
  refine matches_provider even_abreast (fun s t paired => paired.verifies) fun p q _ strict => ?_
  rw [strict rfl]
  generalize mls.applyPendingCommit q group = outcome
  obtain ⟨result, next⟩ := outcome
  refine matches_setGroup.bind (fun _ => ?_) fun _ _ _ both => both.2.toLevel
  refine Matches.mono ?_ (fun s t both => both.2) fun _ _ _ level => level
  exact matches_ofExcept.bind (fun _ => matches_persist) fun _ _ _ paired => paired.toLevel

theorem matches_level (commutes : ∀ store, blank id (write store) = write (blank id store)) :
    Matches (contrast rough) (Level id) (update write) (update write) fun _ => Level id := by
  refine (matches_update even_level fun s t level => ?_).mono (fun _ _ level => level)
    fun _ _ _ reached => reached.2
  refine ⟨?_, level.owner, level.first, level.second⟩
  rw [commutes, commutes, level.tables]

theorem matches_level_then {f : Unit → Service mls α}
    (commutes : ∀ store, blank id (write store) = write (blank id store))
    (rest : ∀ u, Matches (contrast rough) (Level id) (f u) (f u) fun _ => Level id) :
    Matches (contrast rough) (Level id) (update write >>= f) (update write >>= f)
      fun _ => Level id :=
  (matches_level commutes).bind rest fun _ _ _ level => level

theorem matches_bindU64 {n : Nat} :
    Matches (contrast rough) related (bindU64 n : Service mls Nat) (bindU64 n) fun _ => related := by
  unfold bindU64
  split
  · exact matches_pure fun _ _ both => both
  · exact matches_fail fun _ _ both => both

theorem blank_recordPlaintext (store : Store mls) (row : HistoryRow) :
    blank id (store.recordPlaintext row) = (blank id store).recordPlaintext row := by
  change Store.setInboxState (if _ then _ else _) id .blocked =
    if store.authenticatedHistory.any fun r => decide (r.messageId = row.messageId) then _ else _
  split
  · rfl
  · rfl

theorem matches_onlyIf {condition : Prop} [Decidable condition] {m : Service mls Unit}
    {related next : Session mls → Session mls → Prop}
    (matching : Matches (contrast rough) related m m fun _ => next)
    (skipped : ∀ s t, related s t → next s t) :
    Matches (contrast rough) related (onlyIf condition m) (onlyIf condition m) fun _ => next := by
  unfold onlyIf
  split
  · exact matching
  · exact matches_pure skipped

theorem matches_applyOwn :
    Matches (contrast false) (Ready id) (applyOwn event own : Service mls Unit)
      (applyOwn event own) fun _ => Level id := by
  refine matches_require.bind (fun entry => ?_) fun _ _ _ ready => ready.toLevel
  refine matches_ofExcept.bind (fun message => ?_) fun _ _ _ ready => ready.toLevel
  split
  · split
    · exact matches_fail fun _ _ ready => ready.toLevel
    refine (matches_onlyIf matches_applyAcceptedCommit fun _ _ ready => ready.toLevel).bind
      (fun _ => ?_) fun _ _ _ level => level
    refine matches_level_then (fun _ => rfl) fun _ => ?_
    refine matches_level_then (fun _ => rfl) fun _ => ?_
    refine matches_bindU64.bind (fun sequence => ?_) fun _ _ _ level => level
    exact matches_level fun _ => rfl
  · exact matches_fail fun _ _ ready => ready.toLevel

theorem matches_applyPeer (blames : rough = true → Blames mls) :
    Matches (contrast rough) (Ready id) (applyPeer event : Service mls Unit) (applyPeer event)
      fun _ => Level id := by
  refine (matches_processBound blames).bind (fun processed => ?_) fun _ _ _ level => level
  cases processed with
  | application plaintext author =>
    dsimp only
    split
    · refine matches_bindU64.bind (fun sequence => ?_) fun _ _ _ level => level
      exact matches_level fun store => blank_recordPlaintext store _
    · exact matches_fail fun _ _ level => level
  | commit epoch => exact matches_pure fun _ _ level => level

theorem matches_effect :
    Matches (contrast false) (Ready id) (effect e event own) (effect e event own)
      fun _ => Level id := by
  unfold effect
  split
  · exact matches_applyOwn
  · exact matches_applyPeer nofun

structure Same (s t : Session mls) : Prop where
  tables : s.store = t.store
  owner : s.owner = t.owner
  first : s.poisoned = false
  second : t.poisoned = false

theorem even_same : Even (Same : Session mls → Session mls → Prop) where
  counts _ _ _ _ same := ⟨same.tables, same.owner, same.first, same.second⟩
  openings _ _ same := ⟨same.first, same.second⟩

theorem Same.level (same : Same s t) : Level id s t :=
  ⟨congrArg (blank id) same.tables, same.owner, same.first, same.second⟩

theorem setInboxState_blank (store : Store mls) (state : ProcessingState) :
    (blank id store).setInboxState id state = store.setInboxState id state := by
  unfold blank Store.setInboxState
  simp only [List.map_map]
  congr 1
  refine List.map_congr_left fun row _ => ?_
  by_cases here : row.eventId = id
  · simp [here]
  · simp [here]

theorem matches_mark :
    Matches (contrast rough) (Level id) (update fun store : Store mls => store.setInboxState id state)
      (update fun store => store.setInboxState id state) fun r s t => r = .ok () ∧ Same s t := by
  refine matches_update even_level fun s t level => ⟨?_, level.owner, level.first, level.second⟩
  change s.store.setInboxState id state = t.store.setInboxState id state
  rw [← setInboxState_blank s.store state, level.tables, setInboxState_blank]

theorem matches_execute {write : Store mls → Except StoreError (Store mls)} :
    Matches (contrast rough) Same (execute write) (execute write) fun _ => Same := by
  refine (matches_call even_same).bind (fun _ => ?_) fun _ _ _ both => both.2
  refine matches_get fun s t both => ?_
  have pinned : ∀ u v, u = s ∧ v = t → Same u v := by
    rintro u v ⟨rfl, rfl⟩
    exact both.2
  rw [both.2.tables]
  split
  · exact matches_modify fun u v same => ⟨rfl, (pinned u v same).owner, (pinned u v same).first,
      (pinned u v same).second⟩
  · exact matches_fail pinned

theorem matches_receipt {receipt : MessageId} {events : List MessageId} {welcomes : List UInt64} :
    Matches (contrast rough) Same (journal receipt (.acknowledge events welcomes) : Service mls Unit)
      (journal receipt (.acknowledge events welcomes)) fun _ => Same := by
  have skipped : Matches (contrast rough) Same (pure () : Service mls Unit) (pure ())
      fun _ => Same := matches_pure fun _ _ same => same
  refine skipped.bind (fun _ => ?_) fun _ _ _ same => same
  exact matches_ofExcept.bind (fun message => matches_execute) fun _ _ _ same => same

theorem matches_finishEvent :
    Matches (contrast rough) (Level event.id) (finishEvent e event state) (finishEvent e event state)
      fun _ => Same := by
  refine matches_mark.bind (fun _ => ?_) fun _ _ _ both => both.2
  refine Matches.mono ?_ (fun s t both => both.2) fun _ _ _ same => same
  refine matches_bindU64.bind (fun sequence => ?_) fun _ _ _ same => same
  have moved : Matches (contrast rough) Same
      (update fun store : Store mls => store.setCursor event.operation.room sequence)
      (update fun store => store.setCursor event.operation.room sequence) fun _ => Same := by
    refine (matches_update even_same fun s t same => ?_).mono (fun _ _ same => same)
      fun _ _ _ both => both.2
    refine ⟨?_, same.owner, same.first, same.second⟩
    exact congrArg (fun store : Store mls => store.setCursor event.operation.room sequence) same.tables
  exact moved.bind (fun _ => matches_receipt) fun _ _ _ same => same

/-- What two runs of a transaction leave: the same tables, or the tables each began with. -/
def Settled (id : MessageId) (r : Except Error α) (s t : Session mls) : Prop :=
  Level id s t ∧ ∀ a, r = .ok a → Same s t

theorem settled_of_same {r : Except Error α} (same : Same s t) : Settled id r s t :=
  ⟨same.level, fun _ _ => same⟩

theorem settled_of_level {x : Error} (level : Level id s t) :
    Settled id (.error x : Except Error α) s t :=
  ⟨level, fun _ same => nomatch same⟩

theorem matches_settling :
    Matches (contrast false) (Ready event.id)
      (do effect e event own; finishEvent e event .applied)
      (do effect e event own; finishEvent e event .applied) (Settled event.id) := by
  refine matches_effect.bind (fun _ => ?_) fun _ _ _ level => settled_of_level level
  exact matches_finishEvent.mono (fun _ _ level => level) fun _ _ _ same => settled_of_same same

/-- Relations that only look at the tables, the caches and the connection. -/
def Lasting (related : Session mls → Session mls → Prop) : Prop :=
  ∀ s t u v, related s t → Keeps s u → Keeps t v → Stands true u → Stands true v → related u v

theorem lasting_level : Lasting (Level id : Session mls → Session mls → Prop) := by
  intro s t u v level left right one two
  refine ⟨?_, one.owner.trans two.owner.symm, one.poisoned, two.poisoned⟩
  rw [left.store, right.store]
  exact level.tables

theorem lasting_ready : Lasting (Ready id : Session mls → Session mls → Prop) := by
  intro s t u v ready left right one two
  refine ⟨lasting_level s t u v ready.toLevel left right one two, left.coherent ready.left,
    right.coherent ready.right, ?_⟩
  rw [left.store]
  exact ready.rostered

theorem matches_committed (inner : Matches (contrast false) related body body (Settled id)) :
    Matches (contrast false) related (do let value ← body; commit; pure value)
      (do let value ← body; commit; pure value) (Settled id) := by
  refine inner.bind (fun a => ?_) fun _ _ _ settled => settled_of_level settled.1
  refine Matches.mono ?_ (fun s t settled => settled.2 a rfl) fun _ _ _ same => settled_of_same same
  have closes : Matches (contrast false) Same (commit : Service mls Unit) commit fun _ => Same := by
    refine (matches_call even_same).bind (fun _ => ?_) fun _ _ _ both => both.2
    exact matches_modify fun s t both => ⟨both.2.tables, rfl, both.2.first, both.2.second⟩
  exact closes.bind (fun _ => matches_pure fun _ _ same => same) fun _ _ _ same => same

theorem rollback_works (works : Works here) {before : Store mls} {s : Session mls}
    (standing : s.poisoned = false) : rollback here before s =
      { s with store := before, owner := false, calls := s.calls + 1 } := by
  unfold rollback
  rw [if_neg (by simp [standing]), if_neg (by simp [works s.calls])]

theorem begin_nested {s : Session mls} (standing : s.poisoned = false) (nested : s.owner = true) :
    begin here s = (.error (.store (.invalidData "nested client transaction")), s) := by
  unfold begin
  rw [bind_of_ok (rfl : Local.get here s = (.ok s, s)), if_neg (by simp [standing]), if_pos nested]
  rfl

theorem matches_transaction (lasting : Lasting related) (levels : ∀ s t, related s t → Level id s t)
    (inner : Matches (contrast false) related body body (Settled id)) :
    Matches (contrast false) related (transaction body) (transaction body) (Settled id) := by
  intro h k s t fits works both
  have sound : Works h := fits.resolve_left Bool.false_ne_true
  have level := levels s t both
  refine .inr ?_
  cases nested : t.owner with
  | true =>
    have outer : s.owner = true := level.owner.trans nested
    unfold transaction
    rw [begin_nested level.first outer, begin_nested level.second nested]
    exact ⟨rfl, settled_of_level level⟩
  | false =>
    obtain ⟨_, u, opened, left, one⟩ := returns_begin sound ⟨level.owner.trans nested, level.first⟩
    obtain ⟨_, v, opening, right, two⟩ := returns_begin works ⟨nested, level.second⟩
    have inside := lasting s t u v both left right one two
    rcases matches_committed inner h k u v fits works inside with ⟨_, -, excuse⟩ | ⟨same, settled⟩
    · cases excuse.1
    rcases first : (do let value ← body; commit; pure value : Service mls α) h u with ⟨x | a, u'⟩ <;>
      rcases second : (do let value ← body; commit; pure value : Service mls α) k v with
        ⟨y | b, v'⟩ <;> rw [first, second] at same settled
    · obtain rfl := Except.error.inj same
      rw [transaction_error opened first, transaction_error opening second,
        rollback_works sound settled.1.first, rollback_works works settled.1.second]
      exact ⟨rfl, settled_of_level ⟨level.tables, rfl, settled.1.first, settled.1.second⟩⟩
    · cases same
    · cases same
    · obtain rfl := Except.ok.inj same
      rw [transaction_ok opened first, transaction_ok opening second]
      exact ⟨rfl, settled⟩

theorem matches_atomic {operation : Service mls α}
    (lasting : Lasting related) (levels : ∀ s t, related s t → Level id s t)
    (inner : Matches (contrast false) related operation operation (Settled id)) :
    Matches (contrast false) related (atomic operation) (atomic operation) (Settled id) := by
  intro h k s t fits works both
  rcases matches_transaction lasting levels inner h k s t fits works both with
    ⟨_, -, excuse⟩ | ⟨same, level, equal⟩
  · cases excuse.1
  obtain ⟨left, one⟩ := atomic_eq operation h s
  obtain ⟨right, two⟩ := atomic_eq operation k t
  rw [one, two]
  refine .inr ⟨same, ⟨level.tables, level.owner, level.first, level.second⟩, fun a done => ?_⟩
  have whole := equal a done
  exact ⟨whole.tables, whole.owner, whole.first, whole.second⟩

theorem even_ready : Even (Ready id : Session mls → Session mls → Prop) where
  counts s t m n ready := ⟨even_level.counts s t m n ready.toLevel,
    Keeps.coherent ⟨rfl, rfl⟩ ready.left, Keeps.coherent ⟨rfl, rfl⟩ ready.right, ready.rostered⟩
  openings _ _ ready := ⟨ready.first, ready.second⟩

/-- Where storage works, processing an event depends on the tables alone. -/
theorem matches_applyEvent :
    Matches (contrast false) (Ready event.id) (applyEvent e event) (applyEvent e event)
      (Settled event.id) := by
  refine (matches_query even_ready fun s t ready => ?_).bind (fun current => ?_) ?_
  · have cursors : s.store.deliveryCursors = t.store.deliveryCursors :=
      (congrArg Store.deliveryCursors ready.tables :)
    unfold cursorOf
    rw [cursors]
  · refine Matches.mono ?_ (fun s t both => both.2) fun _ _ _ settled => settled
    split
    · exact matches_fail fun _ _ ready => settled_of_level ready.toLevel
    refine (matches_query even_ready fun s t ready => ?_).bind (fun own => ?_) ?_
    · have outbox : s.store.outbox = t.store.outbox := (congrArg Store.outbox ready.tables :)
      unfold Store.findOutbox
      rw [outbox]
    · refine Matches.mono ?_ (fun s t both => both.2) fun _ _ _ settled => settled
      have strict : ∀ x : Error, ¬(contrast false : Contrast (Surroundings mls) Error).excused x :=
        fun _ excuse => Bool.false_ne_true excuse.1
      have settling : Matches (contrast false) (Ready event.id) (settleEvent e event own)
          (settleEvent e event own) (Settled event.id) :=
        matches_atomic lasting_ready (fun _ _ ready => ready.toLevel) matches_settling
      refine (settling.attempt strict).bind (fun outcome => ?_) fun _ _ _ never => ?_
      swap
      · obtain ⟨_, same, -⟩ := never
        cases same
      have reached : ∀ s t : Session mls, (∃ r, (.ok outcome : Except Error (Except Error Unit)) =
          .ok r ∧ Settled event.id r s t) → Settled event.id outcome s t := by
        rintro s t ⟨r, same, settled⟩
        rw [Except.ok.inj same]
        exact settled
      refine Matches.mono ?_ reached fun _ _ _ settled => settled
      split
      · refine Matches.mono ?_ (fun s t settled => settled.2 _ rfl) fun _ _ _ => settled_of_same
        have noted : Matches (contrast false) Same (call : Service mls Unit) call fun _ => Same :=
          (matches_call even_same).mono (fun _ _ same => same) fun _ _ _ both => both.2
        exact (matches_onlyIf noted fun _ _ same => same).bind
          (fun _ => matches_pure fun _ _ same => same) fun _ _ _ same => same
      · refine Matches.mono ?_ (fun s t settled => settled.1) fun _ _ _ => settled_of_same
        exact matches_mark.bind (fun _ => matches_pure fun _ _ both => both.2) fun _ _ _ both => both.2
      · refine Matches.mono ?_ (fun s t settled => settled.1) fun _ _ _ settled => settled
        refine (matches_transaction lasting_level (fun _ _ level => level)
          (matches_finishEvent.mono (fun _ _ level => level)
            fun _ _ _ same => settled_of_same same)).bind
          (fun _ => matches_pure fun s t settled => ?_) fun _ _ _ settled => settled_of_level settled.1
        exact settled_of_same (settled.2 _ rfl)
      · exact matches_fail fun _ _ settled => settled_of_level settled.1
    · exact fun _ s t both => settled_of_level both.2.toLevel
  · exact fun _ s t both => settled_of_level both.2.toLevel

end Events

end Grotto.Client.Reruns
