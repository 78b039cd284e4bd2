/- GID: Grotto/Relay/Sessions
   digest: Handshakes side by side on one relay: who gets a session, and who holds one. -/

import Grotto.Relay.Handshake

set_option autoImplicit false

namespace Grotto.Relay.Sessions

open Base.Interaction
open Format.Varint (Bytes)
open Format.Postcard (Octets)
open Protocol.Records Protocol.Wire Protocol.Transcripts
open Enrollment Hub Handshake

structure Talk where
  script : Dialogue (Option Session)
  past : Trace Answer

/-- The identities, the hub, the worker's queue with the results it has sent, and the connections. -/
structure Server where
  tables : Tables
  hub : ConnectionHub := {}
  jobs : List (Nat × Job) := []
  results : Nat → Option (Except EnrollmentError Registration) := fun _ => none
  talks : Nat → Option Talk := fun _ => none

/-- What connection `i` has exchanged. -/
def Server.past (s : Server) (i : Nat) : Trace Answer := ((s.talks i).map Talk.past).getD []

/-- What the handshake of connection `i` has returned. -/
def Server.returned (s : Server) (i : Nat) : Option (Except Failure (Option Session)) :=
  match s.talks i with
  | some ⟨.done result, _⟩ => some result
  | _ => none

inductive Choice
  | arrival (arrival : Arrival)
  | departure (departure : Departure)
  | challenge (challenge : Option AuthenticationChallenge)
  | admission (admission : Admission)
  | outcome (received : Bool)
  | hub

inductive Move
  | connect (i : Nat)
  | answer (i : Nat) (choice : Choice)
  | work (here : Moment)
  | issue (here : Moment) (user : UserId) (fingerprint : Digest)
  | notify
  | receive (user : UserId) (id : UInt64)
  | hangUp (user : UserId) (id : UInt64)
  | close (i : Nat)

section Definitions

variable (v : Verifier) (sha256 : Hash)

/-- The answer to a query of connection `i`, and the relay after it. -/
def reply (s : Server) (i : Nat) : (query : Query) → Choice → Option (Answer query × Server)
  | .read, .arrival arrival => some (arrival, s)
  | .write _, .departure departure => some (departure, s)
  | .generate, .challenge challenge => some (challenge, s)
  | .submit job, .admission .admitted => some (.admitted, { s with jobs := s.jobs ++ [(i, job)] })
  | .submit _, .admission refusal => some (refusal, s)
  | .outcome, .outcome true => (s.results i).map fun result => (some result, s)
  | .outcome, .outcome false => some (none, s)
  | .activate user, .hub =>
    some ((s.hub.activate user).1, { s with hub := (s.hub.activate user).2 })
  | .fetchAdd, .hub => some (s.hub.fetchAdd.1, { s with hub := s.hub.fetchAdd.2 })
  | .insert user id, .hub => some ((), { s with hub := s.hub.insert user id })
  | .unregister user id, .hub => some ((), { s with hub := s.hub.unregister user id })
  | .deactivate user, .hub => some ((), { s with hub := s.hub.deactivate user })
  | _, _ => none

def Server.setTalk (s : Server) (i : Nat) (talk : Talk) : Server :=
  { s with talks := Function.update s.talks i (some talk) }

def Server.perform (s : Server) (here : Moment) (i : Nat) (job : Job) (rest : List (Nat × Job)) :
    Server :=
  let outcome := registerEnrolledIdentity sha256 here s.tables job.user job.key job.enrollment
  { s with
    tables := outcome.2
    jobs := rest
    results := Function.update s.results i (some outcome.1) }

def step (s : Server) : Move → Option Server
  | .connect i =>
    match s.talks i with
    | none => some (s.setTalk i ⟨authenticate v, []⟩)
    | some _ => none
  | .answer i choice =>
    match s.talks i with
    | some ⟨.ask query rest, past⟩ =>
      (reply s i query choice).map fun (answer, t) =>
        t.setTalk i ⟨rest answer, past ++ [⟨query, answer⟩]⟩
    | _ => none
  | .work here =>
    match s.jobs with
    | [] => none
    | (i, job) :: rest => some (s.perform sha256 here i job rest)
  | .issue here user fingerprint =>
    some { s with tables := (issueEnrollment sha256 here s.tables user fingerprint).2 }
  | .notify => some { s with hub := s.hub.notify s.hub.activeIdentities .deliveryChanged }
  | .receive user id =>
    some { s with hub := s.hub.onChannel user id fun c => { c with queue := c.queue.tail } }
  | .hangUp user id =>
    some { s with hub := s.hub.onChannel user id fun c => { c with closed := true } }
  | .close i =>
    match s.talks i with
    | some ⟨.done (.ok (some session)), past⟩ =>
      some (s.setTalk i ⟨do release session; pure none, past⟩)
    | _ => none

def run (s : Server) (moves : List Move) : Option Server := moves.foldlM (step v sha256) s

end Definitions

variable {event : Event}

section Steps

variable {s t : Server} {i : Nat}

abbrev Event := (query : Query) × Answer query

structure Replies (s : Server) (i : Nat) (event : Event) (t : Server) : Prop where
  tables : t.tables = s.tables
  results : t.results = s.results
  talks : t.talks = s.talks
  jobs : t.jobs = s.jobs ∨ ∃ job, event = ⟨.submit job, .admitted⟩ ∧ t.jobs = s.jobs ++ [(i, job)]
  outcome : ∀ result, event = ⟨.outcome, some result⟩ → s.results i = some result
  active : (∃ user, event = ⟨.activate user, true⟩ ∧ user ∉ s.hub.activeIdentities ∧
      ∀ other, other ∈ t.hub.activeIdentities ↔ other = user ∨ other ∈ s.hub.activeIdentities) ∨
    (∃ user, event = ⟨.deactivate user, ()⟩ ∧
      ∀ other, other ∈ t.hub.activeIdentities ↔
        other ∈ s.hub.activeIdentities ∧ other ≠ user) ∨
    ((∀ before, hold before event = before) ∧
      ∀ other, other ∈ t.hub.activeIdentities ↔ other ∈ s.hub.activeIdentities)

theorem replies_of_same (quiet : ∀ before, hold before event = before)
    (other : ∀ result, event ≠ ⟨.outcome, some result⟩) : Replies s i event s :=
  ⟨rfl, rfl, rfl, .inl rfl, fun result same => absurd same (other result),
    .inr (.inr ⟨quiet, fun _ => Iff.rfl⟩)⟩

theorem replies_of_hub {hub : ConnectionHub} (quiet : ∀ before, hold before event = before)
    (other : ∀ result, event ≠ ⟨.outcome, some result⟩)
    (same : hub.activeIdentities = s.hub.activeIdentities) : Replies s i event { s with hub } :=
  ⟨rfl, rfl, rfl, .inl rfl, fun result given => absurd given (other result),
    .inr (.inr ⟨quiet, fun _ => by rw [same]⟩)⟩

theorem replies_of_reply {query : Query} {choice : Choice} {answer : Answer query}
    (replied : reply s i query choice = some (answer, t)) : Replies s i ⟨query, answer⟩ t := by
  cases query with
  | read =>
    cases choice with
    | arrival arrival =>
      cases replied
      exact replies_of_same (fun _ => rfl) nofun
    | _ => cases replied
  | write bytes =>
    cases choice with
    | departure departure =>
      cases replied
      exact replies_of_same (fun _ => rfl) nofun
    | _ => cases replied
  | generate =>
    cases choice with
    | challenge challenge =>
      cases replied
      exact replies_of_same (fun _ => rfl) nofun
    | _ => cases replied
  | submit job =>
    cases choice with
    | admission taken =>
      cases taken with
      | admitted =>
        cases replied
        exact ⟨rfl, rfl, rfl, .inr ⟨job, rfl, rfl⟩, nofun,
          .inr (.inr ⟨fun _ => rfl, fun _ => Iff.rfl⟩)⟩
      | _ =>
        cases replied
        exact replies_of_same (fun _ => rfl) nofun
    | _ => cases replied
  | outcome =>
    cases choice with
    | outcome received =>
      cases received with
      | false =>
        cases replied
        exact replies_of_same (fun _ => rfl) fun _ same => by cases same
      | true =>
        obtain ⟨result, kept, same⟩ := Option.map_eq_some_iff.mp replied
        cases same
        refine ⟨rfl, rfl, rfl, .inl rfl, fun other same => ?_,
          .inr (.inr ⟨fun _ => rfl, fun _ => Iff.rfl⟩)⟩
        cases same
        exact kept
    | _ => cases replied
  | activate user =>
    cases choice with
    | hub =>
      cases replied
      refine ⟨rfl, rfl, rfl, .inl rfl, nofun, ?_⟩
      cases inserted : (s.hub.activate user).1 with
      | true =>
        exact .inl ⟨user, rfl, s.hub.activate_answer.mp inserted, fun _ => s.hub.mem_activate⟩
      | false =>
        have active : user ∈ s.hub.activeIdentities := by
          by_contra inactive
          rw [s.hub.activate_answer.mpr inactive] at inserted
          cases inserted
        refine .inr (.inr ⟨fun _ => rfl, fun other => s.hub.mem_activate.trans ?_⟩)
        exact ⟨fun found => found.elim (fun same => same ▸ active) id, .inr⟩
    | _ => cases replied
  | fetchAdd =>
    cases choice with
    | hub =>
      cases replied
      exact replies_of_hub (fun _ => rfl) nofun rfl
    | _ => cases replied
  | insert user id =>
    cases choice with
    | hub =>
      cases replied
      exact replies_of_hub (fun _ => rfl) nofun rfl
    | _ => cases replied
  | unregister user id =>
    cases choice with
    | hub =>
      cases replied
      exact replies_of_hub (fun _ => rfl) nofun rfl
    | _ => cases replied
  | deactivate user =>
    cases choice with
    | hub =>
      cases replied
      exact ⟨rfl, rfl, rfl, .inl rfl, nofun,
        .inr (.inl ⟨user, rfl, fun _ => s.hub.mem_deactivate⟩)⟩
    | _ => cases replied

end Steps

variable {past : Trace Answer}

section Invariant

variable {v : Verifier} {sha256 : Hash} {s t : Server} {initial : List IdentityRow} {i : Nat}

/-- The connection has shown its evidence and handed in the job it calls for. -/
def Filed (v : Verifier) (job : Job) (past : Trace Answer) : Prop :=
  ∃ x : Evidence, x.Valid v ∧ x.job = job ∧ x.submitted <+: past

theorem Filed.mono {job : Job} {past more : Trace Answer} (filed : Filed v job past)
    (longer : past <+: more) : Filed v job more := by
  obtain ⟨x, valid, named, shown⟩ := filed
  exact ⟨x, valid, named, shown.trans longer⟩

theorem Filed.unique {job other : Job} (first : Filed v job past) (second : Filed v other past) :
    job = other := by
  obtain ⟨x, -, rfl, one⟩ := first
  obtain ⟨y, -, rfl, two⟩ := second
  have same : x.submitted = y.submitted :=
    (List.prefix_of_prefix_length_le one two le_rfl).eq_of_length rfl
  have last := congrArg List.getLast? same
  simp only [Evidence.submitted, List.getLast?_concat, Option.some.injEq] at last
  cases x
  cases y
  cases last
  rfl

/-- The connections and the hub agree on who holds a session, every identity that was added was
asked for by a connection that had shown its evidence, and no result says more than the tables. -/
structure Accounted (v : Verifier) (initial : List IdentityRow) (s : Server) : Prop where
  always : ∀ i talk, s.talks i = some talk →
    Always (May v) (OrHoldsNothing (Yielded v)) talk.script talk.past
  permitted : ∀ i, Permitted (May v) (s.past i)
  active : ∀ user, user ∈ s.hub.activeIdentities ↔ ∃ i, held (s.past i) = some user
  single : ∀ i j user, held (s.past i) = some user → held (s.past j) = some user → i = j
  jobs : ∀ i job, (i, job) ∈ s.jobs → Filed v job (s.past i)
  results : ∀ i result, s.results i = some (.ok result) →
    ∃ job, Filed v job (s.past i) ∧ s.tables.publicKey job.user = some job.key
  enrolled : ∀ i (x : Evidence) result, x.Valid v → x.enrolled result <+: s.past i →
    s.tables.publicKey x.job.user = some x.job.key
  added : ∃ extra, s.tables.identities = initial ++ extra ∧
    ∀ row ∈ extra, ∃ i job, Filed v job (s.past i) ∧ row = ⟨job.user, job.key⟩

inductive Shifts (active after : List UserId) : Option UserId → Option UserId → Prop
  | gains (user : UserId) (inactive : user ∉ active)
      (now : ∀ other, other ∈ after ↔ other = user ∨ other ∈ active) :
      Shifts active after none (some user)
  | loses (user : UserId) (now : ∀ other, other ∈ after ↔ other ∈ active ∧ other ≠ user) :
      Shifts active after (some user) none
  | keeps (holder : Option UserId) (now : ∀ other, other ∈ after ↔ other ∈ active) :
      Shifts active after holder holder

theorem holders_shift {active after : List UserId} {holders : Nat → Option UserId}
    {holder : Option UserId} (agree : ∀ user, user ∈ active ↔ ∃ j, holders j = some user)
    (single : ∀ j k user, holders j = some user → holders k = some user → j = k)
    (shifts : Shifts active after (holders i) holder) :
    (∀ user, user ∈ after ↔ ∃ j, Function.update holders i holder j = some user) ∧
      ∀ j k user, Function.update holders i holder j = some user →
        Function.update holders i holder k = some user → j = k := by
  -- Whoever holds something afterwards is connection `i` or held it before.
  have cases : ∀ {j user}, Function.update holders i holder j = some user →
      j = i ∧ holder = some user ∨ j ≠ i ∧ holders j = some user := by
    intro j user now
    by_cases same : j = i
    · rw [same, Function.update_self] at now
      exact .inl ⟨same, now⟩
    · rw [Function.update_of_ne same] at now
      exact .inr ⟨same, now⟩
  have mine : ∀ {user}, holder = some user → ∃ j, Function.update holders i holder j = some user :=
    fun now => ⟨i, by rw [Function.update_self]; exact now⟩
  have others : ∀ {j user}, j ≠ i → holders j = some user →
      ∃ j, Function.update holders i holder j = some user :=
    fun other now => ⟨_, by rw [Function.update_of_ne other]; exact now⟩
  generalize before : holders i = old at shifts
  cases shifts with
  | gains user inactive now =>
    have fresh : ∀ j, holders j ≠ some user := fun j same => inactive ((agree user).mpr ⟨j, same⟩)
    refine ⟨fun other => ⟨fun present => ?_, fun ⟨j, held⟩ => (now other).mpr ?_⟩, ?_⟩
    · rcases (now other).mp present with rfl | old
      · exact mine rfl
      · obtain ⟨j, held⟩ := (agree other).mp old
        refine others (fun same => ?_) held
        rw [same, before] at held
        cases held
    · rcases cases held with ⟨-, same⟩ | ⟨-, held⟩
      · exact .inl (Option.some.inj same).symm
      · exact .inr ((agree other).mpr ⟨j, held⟩)
    · intro j k other one two
      rcases cases one with ⟨first, same⟩ | ⟨-, earlier⟩ <;>
        rcases cases two with ⟨second, also⟩ | ⟨-, before⟩
      · exact first.trans second.symm
      · rw [← Option.some.inj same] at before
        exact absurd before (fresh k)
      · rw [← Option.some.inj also] at earlier
        exact absurd earlier (fresh j)
      · exact single j k other earlier before
  | loses user now =>
    refine ⟨fun other => ⟨fun present => ?_, fun ⟨j, held⟩ => (now other).mpr ?_⟩, ?_⟩
    · obtain ⟨old, different⟩ := (now other).mp present
      obtain ⟨j, held⟩ := (agree other).mp old
      refine others (fun same => different ?_) held
      rw [same, before] at held
      exact (Option.some.inj held).symm
    · rcases cases held with ⟨-, same⟩ | ⟨different, held⟩
      · cases same
      · refine ⟨(agree other).mpr ⟨j, held⟩, fun same => different ?_⟩
        rw [same] at held
        exact single j i user held before
    · intro j k other one two
      rcases cases one with ⟨-, same⟩ | ⟨-, one⟩
      · cases same
      · rcases cases two with ⟨-, same⟩ | ⟨-, two⟩
        · cases same
        · exact single j k other one two
  | keeps _ now =>
    rw [← before, Function.update_eq_self]
    exact ⟨fun other => (now other).trans (agree other), single⟩

/-- One connection goes on and the rest stays. -/
theorem Accounted.extend {new : Trace Answer} (accounted : Accounted v initial s)
    (past : t.past = Function.update s.past i new) (longer : s.past i <+: new)
    (tables : t.tables = s.tables) (results : t.results = s.results)
    (always : ∀ j talk, t.talks j = some talk →
      Always (May v) (OrHoldsNothing (Yielded v)) talk.script talk.past)
    (permitted : Permitted (May v) new)
    (shifts : Shifts s.hub.activeIdentities t.hub.activeIdentities (held (s.past i)) (held new))
    (jobs : ∀ j job, (j, job) ∈ t.jobs → (j, job) ∈ s.jobs ∨ j = i ∧ Filed v job new)
    (enrolled : ∀ (x : Evidence) result, x.Valid v → x.enrolled result <+: new →
      s.tables.publicKey x.job.user = some x.job.key) : Accounted v initial t := by
  have longer : ∀ j, s.past j <+: t.past j := by
    intro j
    rw [past]
    by_cases same : j = i
    · rw [same, Function.update_self]
      exact longer
    · rw [Function.update_of_ne same]
  have holders : ∀ j, Function.update (fun k => held (s.past k)) i (held new) j = held (t.past j) := by
    intro j
    rw [past]
    by_cases same : j = i
    · rw [same, Function.update_self, Function.update_self]
    · rw [Function.update_of_ne same, Function.update_of_ne same]
  obtain ⟨agree, single⟩ := holders_shift accounted.active accounted.single shifts
  simp only [holders] at agree single
  refine ⟨always, fun j => ?_, agree, single, fun j job listed => ?_, fun j result given => ?_,
    fun j x result valid shown => ?_, ?_⟩
  · rw [past]
    by_cases same : j = i
    · rw [same, Function.update_self]
      exact permitted
    · rw [Function.update_of_ne same]
      exact accounted.permitted j
  · rcases jobs j job listed with old | ⟨rfl, filed⟩
    · exact (accounted.jobs j job old).mono (longer j)
    · rw [past, Function.update_self]
      exact filed
  · rw [results] at given
    obtain ⟨job, filed, known⟩ := accounted.results j result given
    rw [tables]
    exact ⟨job, filed.mono (longer j), known⟩
  · rw [tables]
    rw [past] at shown
    by_cases same : j = i
    · rw [same, Function.update_self] at shown
      exact enrolled x result valid shown
    · rw [Function.update_of_ne same] at shown
      exact accounted.enrolled j x result valid shown
  · obtain ⟨extra, listed, asked⟩ := accounted.added
    rw [tables]
    refine ⟨extra, listed, fun row present => ?_⟩
    obtain ⟨j, job, filed, shape⟩ := asked row present
    exact ⟨j, job, filed.mono (longer j), shape⟩

theorem past_of_talk {talk : Talk} (found : s.talks i = some talk) : s.past i = talk.past := by
  unfold Server.past
  rw [found]
  rfl

theorem past_setTalk (i : Nat) (talk : Talk) :
    (s.setTalk i talk).past = Function.update s.past i talk.past := by
  funext j
  by_cases same : j = i
  · rw [same, Function.update_self]
    exact past_of_talk (Function.update_self i _ s.talks)
  · rw [Function.update_of_ne same]
    exact congrArg (fun found => (Option.map Talk.past found).getD []) (Function.update_of_ne same _ _)

theorem Replies.shifts (replies : Replies s i event t) (permitted : May v past event.1) :
    Shifts s.hub.activeIdentities t.hub.activeIdentities (held past) (held (past ++ [event])) := by
  rw [held_concat]
  rcases replies.active with ⟨user, rfl, inactive, now⟩ | ⟨user, rfl, now⟩ | ⟨quiet, now⟩
  · obtain ⟨x, result, -, -, rfl⟩ := permitted
    exact .gains user inactive now
  · have holds : held past = some user := permitted
    rw [holds]
    exact .loses user now
  · rw [quiet]
    exact .keeps _ now

theorem always_setTalk {talk : Talk} (accounted : Accounted v initial s) (talks : t.talks = s.talks)
    (always : Always (May v) (OrHoldsNothing (Yielded v)) talk.script talk.past) :
    ∀ j other, (t.setTalk i talk).talks j = some other →
      Always (May v) (OrHoldsNothing (Yielded v)) other.script other.past := by
  intro j other found
  by_cases same : j = i
  · subst same
    obtain rfl := Option.some.inj ((Function.update_self j _ t.talks).symm.trans found)
    exact always
  · refine accounted.always j other ?_
    rw [← talks]
    exact (Function.update_of_ne same _ t.talks).symm.trans found

theorem accounted_answer {query : Query} {rest : Answer query → Dialogue (Option Session)}
    {answer : Answer query} (accounted : Accounted v initial s)
    (found : s.talks i = some ⟨.ask query rest, past⟩) (replies : Replies s i ⟨query, answer⟩ t) :
    Accounted v initial (t.setTalk i ⟨rest answer, past ++ [⟨query, answer⟩]⟩) := by
  have before : s.past i = past := past_of_talk found
  obtain ⟨permitted, onward⟩ := accounted.always i _ found
  have same : t.past = s.past := by
    unfold Server.past
    rw [replies.talks]
  refine accounted.extend (past_setTalk i _ |>.trans (by rw [same])) ?_ replies.tables replies.results
    (always_setTalk accounted replies.talks (onward answer)) ?_ ?_ (fun j job listed => ?_)
    fun x result valid shown => ?_
  · rw [before]
    exact List.prefix_append _ _
  · rw [← before]
    rw [← before] at permitted
    exact (accounted.permitted i).concat permitted answer
  · rw [before]
    exact replies.shifts permitted
  · rcases replies.jobs with old | ⟨new, event, added⟩
    · exact .inl (old ▸ listed)
    rcases List.mem_append.mp (added ▸ listed) with old | last
    · exact .inl old
    · cases event
      obtain ⟨rfl, rfl⟩ := Prod.mk.inj (List.mem_singleton.mp last)
      obtain ⟨x, valid, named, rfl⟩ := permitted
      exact .inr ⟨rfl, x, valid, named, by rw [← named]; exact List.prefix_rfl⟩
  · rcases List.prefix_concat_iff.mp shown with whole | earlier
    · -- This exchange is the one that brings the result.
      obtain ⟨submitted, event⟩ := List.append_inj' whole rfl
      have given := replies.outcome (.ok result) (List.singleton_inj.mp event).symm
      obtain ⟨job, filed, known⟩ := accounted.results i result given
      rw [before, ← submitted] at filed
      have asked : Filed v x.job x.submitted := ⟨x, valid, rfl, List.prefix_rfl⟩
      rw [filed.unique asked] at known
      exact known
    · rw [← before] at earlier
      exact accounted.enrolled i x result valid earlier

theorem accounted_connect (accounted : Accounted v initial s) (unused : s.talks i = none) :
    Accounted v initial (s.setTalk i ⟨authenticate v, []⟩) := by
  have before : s.past i = [] := by
    unfold Server.past
    rw [unused]
    rfl
  refine accounted.extend (past_setTalk i _) (by rw [before]) rfl rfl
    (always_setTalk accounted rfl (always_authenticate v)) permitted_nil ?_ (fun j job listed => .inl listed)
    fun x result valid shown => ?_
  · rw [before]
    exact .keeps _ fun _ => Iff.rfl
  · exact absurd (List.prefix_nil.mp shown) (by simp [Evidence.enrolled])

theorem accounted_close {session : Session} (accounted : Accounted v initial s)
    (found : s.talks i = some ⟨.done (.ok (some session)), past⟩) :
    Accounted v initial (s.setTalk i ⟨do release session; pure none, past⟩) := by
  have before : s.past i = past := past_of_talk found
  have holds : held past = some session.user := by
    obtain ⟨x, result, bytes, -, mine, -, rfl⟩ := accounted.always i _ found
    rw [held_concat, ← mine]
    exact held_registered x result session.id
  have releasing : Always (May v) (OrHoldsNothing (Yielded v))
      (do release session; pure none) past :=
    (always_release holds).bind (fun _ _ free => always_pure free) fun _ _ free => free
  refine accounted.extend (past_setTalk i _) (by rw [before]) rfl rfl
    (always_setTalk accounted rfl releasing) ?_ ?_ (fun j job listed => .inl listed)
    fun x result valid shown => ?_
  · rw [← before]
    exact accounted.permitted i
  · rw [before]
    exact .keeps _ fun _ => Iff.rfl
  · rw [← before] at shown
    exact accounted.enrolled i x result valid shown

theorem Accounted.afterCall (accounted : Accounted v initial s) (call : Call)
    (asked : ∀ here user key token, call = .register here user key token →
      ∃ i job, Filed v job (s.past i) ∧ job.user = user ∧ job.key = key)
    (talks : t.talks = s.talks) (hub : t.hub = s.hub)
    (tables : t.tables = call.after sha256 s.tables) (jobs : ∀ entry ∈ t.jobs, entry ∈ s.jobs)
    (results : ∀ i result, t.results i = some (.ok result) → s.results i = some (.ok result) ∨
      ∃ job, Filed v job (s.past i) ∧ t.tables.publicKey job.user = some job.key) :
    Accounted v initial t := by
  have past : t.past = s.past := by
    unfold Server.past
    rw [talks]
  have kept : ∀ {user key}, s.tables.publicKey user = some key →
      t.tables.publicKey user = some key := by
    intro user key known
    rw [tables]
    exact publicKey_after known call
  refine ⟨?_, ?_, ?_, ?_, fun i job listed => ?_, fun i result given => ?_,
    fun i x result valid shown => ?_, ?_⟩
  · rw [talks]
    exact accounted.always
  · rw [past]
    exact accounted.permitted
  · rw [past, hub]
    exact accounted.active
  · rw [past]
    exact accounted.single
  · rw [past]
    exact accounted.jobs i job (jobs _ listed)
  · rw [past]
    rcases results i result given with old | new
    · obtain ⟨job, filed, known⟩ := accounted.results i result old
      exact ⟨job, filed, kept known⟩
    · exact new
  · rw [past] at shown
    exact kept (accounted.enrolled i x result valid shown)
  · obtain ⟨extra, listed, filed⟩ := accounted.added
    rw [past, tables]
    rcases @identities_after sha256 call s.tables with same | ⟨here, user, key, token, rfl, -, added⟩
    · rw [same]
      exact ⟨extra, listed, filed⟩
    rw [added, listed, List.append_assoc]
    refine ⟨extra ++ [⟨user, key⟩], rfl, fun row present => ?_⟩
    rcases List.mem_append.mp present with old | new
    · exact filed row old
    · obtain ⟨i, job, shown, rfl, rfl⟩ := asked here user key token rfl
      exact ⟨i, job, shown, List.mem_singleton.mp new⟩

theorem accounted_step {move : Move} (accounted : Accounted v initial s)
    (taken : step v sha256 s move = some t) : Accounted v initial t := by
  cases move with
  | connect i =>
    dsimp only [step] at taken
    split at taken
    · rename_i unused
      cases taken
      exact accounted_connect accounted unused
    · cases taken
  | answer i choice =>
    dsimp only [step] at taken
    split at taken
    · rename_i found
      obtain ⟨⟨answer, middle⟩, replied, rfl⟩ := Option.map_eq_some_iff.mp taken
      exact accounted_answer accounted found (replies_of_reply replied)
    · cases taken
  | work here =>
    dsimp only [step] at taken
    split at taken
    · cases taken
    rename_i i job rest queue
    cases taken
    have filed : Filed v job (s.past i) := accounted.jobs i job (by rw [queue]; exact List.mem_cons_self)
    refine accounted.afterCall (.register here job.user job.key job.enrollment) ?_ rfl rfl rfl ?_ ?_
    · intro here user key token same
      cases same
      exact ⟨i, job, filed, rfl, rfl⟩
    · intro entry listed
      rw [queue]
      exact List.mem_cons_of_mem _ listed
    intro j result given
    by_cases same : j = i
    · subst same
      have outcome := Option.some.inj ((Function.update_self j _ s.results).symm.trans given)
      exact .inr ⟨job, filed, register_publicKey outcome⟩
    · exact .inl ((Function.update_of_ne same _ s.results).symm.trans given)
  | issue here user fingerprint =>
    cases taken
    exact accounted.afterCall (.issue here user fingerprint) nofun rfl rfl rfl (fun _ listed => listed)
      fun _ _ given => .inl given
  | notify =>
    cases taken
    exact { accounted with }
  | receive user id =>
    cases taken
    exact { accounted with }
  | hangUp user id =>
    cases taken
    exact { accounted with }
  | close i =>
    dsimp only [step] at taken
    split at taken
    · rename_i found
      cases taken
      exact accounted_close accounted found
    · cases taken

theorem accounted_run {moves : List Move} (accounted : Accounted v initial s)
    (ran : run v sha256 s moves = some t) : Accounted v initial t := by
  induction moves generalizing s with
  | nil =>
    cases ran
    exact accounted
  | cons move moves ih =>
    obtain ⟨middle, taken, onward⟩ := Option.bind_eq_some_iff.mp ran
    exact ih (accounted_step accounted taken) onward

theorem accounted_start (v : Verifier) (tables : Tables) :
    Accounted v tables.identities { tables := tables } := by
  refine ⟨nofun, fun _ => permitted_nil, fun user => ⟨nofun, fun ⟨i, holds⟩ => ?_⟩,
    fun i j user holds => ?_, nofun, nofun, fun i x result valid shown => ?_, [],
    (List.append_nil _).symm, nofun⟩
  · cases holds
  · cases holds
  · exact absurd (List.prefix_nil.mp shown) (by simp [Evidence.enrolled])

end Invariant

section Results

variable {v : Verifier} {sha256 : Hash} {tables : Tables} {moves : List Move} {s : Server}

theorem returned_some {i : Nat} {result : Except Failure (Option Session)}
    (returned : s.returned i = some result) : s.talks i = some ⟨.done result, s.past i⟩ := by
  unfold Server.returned at returned
  split at returned
  · rename_i past found
    cases returned
    rw [past_of_talk found]
    exact found
  · cases returned

/-- However connections interleave and calls fail: a session is yielded, and announced, only after
the three frames with a signature of the registered key over this handshake's challenge; one
connection at a time holds a user's registration; a handshake that yields no session holds none;
and an identity is added only for a connection whose signature had been checked. -/
theorem session_possession (ran : run v sha256 { tables := tables } moves = some s) :
    (∀ i session, s.returned i = some (.ok (some session)) →
      held (s.past i) = some session.user ∧
      ∃ (x : Evidence) (result : Registration) (bytes : Bytes), x.Valid v ∧
        x.job.user = session.user ∧
        s.past i = x.registered result session.id ++ [⟨.write bytes, .sent⟩] ∧
        frames (s.past i) = [x.hello, x.identify, x.response] ∧
        s.tables.publicKey session.user = some x.job.key) ∧
    (∀ i before bytes departure after user,
      s.past i = before ++ ⟨.write bytes, departure⟩ :: after →
      decodeMessage RelayMessage bytes = .ok (.serverIdentifyAccepted user) →
      held before = some user ∧
      ∃ (x : Evidence) (result : Registration) (id : UInt64), x.Valid v ∧ x.job.user = user ∧
        before = x.registered result id ∧ frames before = [x.hello, x.identify, x.response] ∧
        s.tables.publicKey user = some x.job.key) ∧
    (∀ i j user, held (s.past i) = some user → held (s.past j) = some user → i = j) ∧
    (∀ i result, s.returned i = some result → (∀ session, result ≠ .ok (some session)) →
      held (s.past i) = none) ∧
    ∃ extra, s.tables.identities = tables.identities ++ extra ∧ ∀ row ∈ extra,
      ∃ (i : Nat) (x : Evidence), x.Valid v ∧ x.checked <+: s.past i ∧
        row = ⟨x.job.user, x.job.key⟩ := by
  have accounted := accounted_run (accounted_start v tables) ran
  refine ⟨fun i session returned => ?_, fun i before bytes departure after user split announced => ?_,
    accounted.single, fun i result returned other => ?_, ?_⟩
  · obtain ⟨x, result, bytes, valid, mine, -, past⟩ := accounted.always i _ (returned_some returned)
    have past : s.past i = x.registered result session.id ++ [⟨.write bytes, .sent⟩] := past
    have shown : x.enrolled result <+: s.past i := by
      rw [past, Evidence.registered, List.append_assoc]
      exact List.prefix_append _ _
    refine ⟨?_, x, result, bytes, valid, mine, past, ?_, ?_⟩
    · rw [past, held_concat, ← mine]
      exact held_registered x result session.id
    · rw [past]
      rfl
    · rw [← mine]
      exact accounted.enrolled i x result valid shown
  · obtain ⟨x, result, id, valid, rfl, rfl⟩ :=
      accounted.permitted i before _ departure after split user announced
    have shown : x.enrolled result <+: s.past i := by
      rw [split, Evidence.registered, List.append_assoc]
      exact List.prefix_append _ _
    exact ⟨held_registered x result id, x, result, id, valid, rfl, rfl, rfl,
      accounted.enrolled i x result valid shown⟩
  · have ended := accounted.always i _ (returned_some returned)
    rcases result with e | session | session
    · exact ended
    · exact ended
    · exact absurd rfl (other session)
  · obtain ⟨extra, listed, filed⟩ := accounted.added
    refine ⟨extra, listed, fun row present => ?_⟩
    obtain ⟨i, job, ⟨x, valid, rfl, shown⟩, rfl⟩ := filed row present
    exact ⟨i, x, valid, (List.prefix_append _ _).trans shown, rfl⟩

def knownUser : UserId := ⟨Octets.replicate 16 1⟩
def knownKey : Ed25519PublicKeyBytes := Octets.replicate 32 2

def clientFrame (message : ClientMessage) : Arrival :=
  .frame ((encodeMessage message).toOption.getD [])

def trusting : Verifier := ⟨fun _ => true, fun _ _ _ => true⟩

def undisturbed : Moment := ⟨fun _ => none, 0, none⟩

def knownMoves : List Move :=
  [.connect 0, .answer 0 (.arrival (clientFrame (.clientHello 9))), .answer 0 (.departure .sent),
    .answer 0 (.arrival (clientFrame (.clientIdentify knownUser knownKey none))),
    .answer 0 (.challenge (some (Octets.replicate 32 3))), .answer 0 (.departure .sent),
    .answer 0 (.arrival (clientFrame (.clientAuthenticationResponse (Octets.replicate 64 4)))),
    .answer 0 (.admission .admitted), .work undisturbed, .answer 0 (.outcome true), .answer 0 .hub,
    .answer 0 .hub, .answer 0 .hub, .answer 0 (.departure .sent)]

def knownRun : Option Server :=
  run trusting (fun _ => Octets.replicate 32 0) { tables := { identities := [⟨knownUser, knownKey⟩] } }
    knownMoves

theorem session_possession_known : ∃ s, knownRun = some s ∧
    s.returned 0 = some (.ok (some ⟨knownUser, 0⟩)) ∧ held (s.past 0) = some knownUser ∧
    ∀ j, held (s.past j) = some knownUser → j = 0 := by
  have yields : (knownRun.bind fun s => s.returned 0) = some (.ok (some ⟨knownUser, 0⟩)) := by
    decide +kernel
  obtain ⟨s, ran, returned⟩ := Option.bind_eq_some_iff.mp yields
  obtain ⟨yielded, -, single, -⟩ := session_possession ran
  have holds := (yielded 0 _ returned).1
  exact ⟨s, ran, returned, holds, fun j also => single j 0 knownUser also holds⟩

end Results

end Grotto.Relay.Sessions
