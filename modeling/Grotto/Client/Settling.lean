/- GID: Grotto/Client/Settling
   digest: An event is settled with all its effects or left as it was, whatever call fails. -/

import Grotto.Client.Reruns
import Grotto.Client.Pins

set_option autoImplicit false

namespace Grotto.Client.Settling

open Protocol.Records Protocol.Transcripts
open Base.Program Base.Program.Local
open Library Tables
open Calls Effects Operations
open Delivery Changes Actions Working
open Reruns Frames Machine Laws
open Pins

variable {mls : Mls} {e : Engine mls} {event : Event}

/-- What the first transaction of `apply_event` comes to. -/
def verdict (e : Engine mls) (event : Event) : Service mls (Except Error Unit) := do
  let current ← cursor event.operation.room
  if current ≠ event.operation.parent.toNat then
    Local.fail (.text "attempted noncontiguous MLS processing")
  else do
    let own ← query fun s => s.findOutbox event.id
    (settleEvent e event own).attempt

/-- What `apply_event` makes of it. -/
def conclude (e : Engine mls) (event : Event) : Except Error Unit → Service mls Bool
  | .ok _ => do
      onlyIf (event.sender = e.user ∧ event.operation.contentType = .application) call
      pure true
  | .error (.processing .blocked) => do
      update fun s => s.setInboxState event.id .blocked
      pure false
  | .error (.processing .rejected) => do
      transaction (finishEvent e event .rejected)
      pure true
  | .error other => Local.fail other

theorem applyEvent_eq : applyEvent e event = verdict e event >>= conclude e event := by
  unfold verdict
  rw [bind_assoc]
  unfold applyEvent
  congr 1
  funext current
  split
  · rfl
  · rw [bind_assoc]
    congr 1

section Verdicts

variable {α β : Type} {s : Session mls} {here : Surroundings mls} {operation : Service mls α}
variable {again : Surroundings mls} {fault : ProcessingFault}

theorem ends_verdict (coherent : Coherent s) : (verdict e event).Ends s fun r t => Coherent t ∧
    match r with
    | .ok (.ok _) => ∃ middle, Applies e s.store event middle ∧
        Finishes e middle event .applied t.store
    | .ok (.error _) => t.store = s.store
    | .error _ => t.store = s.store := by
  refine Ends.bind ends_query (fun current t reached => ?_) fun _ t reached =>
    ⟨reached.1.coherent coherent, reached.1.store⟩
  have read := reached.1
  split
  · exact ends_fail ⟨read.coherent coherent, read.store⟩
  refine Ends.bind ends_query (fun own u reached => ?_) fun _ u reached =>
    ⟨(read.trans reached.1).coherent coherent, (read.trans reached.1).store⟩
  obtain ⟨looked, value⟩ := reached
  have found := value own rfl
  have keeps := read.trans looked
  rw [← looked.store] at found
  subst found
  refine (ends_settleEvent (keeps.coherent coherent)).attempt.mono fun r v settled => ?_
  obtain ⟨outcome, rfl, kept, effects, -⟩ := settled
  rw [keeps.store] at effects
  refine ⟨kept, ?_⟩
  cases outcome with
  | ok _ => exact effects
  | error _ => exact effects

theorem fault_of_bind {m : Service mls α} {f : α → Service mls β} (plain : ∀ a, Plain (f a))
    (failed : ((m >>= f) here s).1 = .error (.processing fault)) :
    (m here s).1 = .error (.processing fault) := by
  rcases first : m here s with ⟨x | a, t⟩
  · rw [bind_of_error first] at failed
    exact congrArg Except.error (Except.error.inj failed)
  · rw [bind_of_ok first] at failed
    exact absurd failed (plain a t here fault)

theorem fault_of_atomic (failed : (atomic operation here s).1 = .error (.processing fault)) :
    ∃ u, begin here s = (.ok (), u) ∧ (operation here u).1 = .error (.processing fault) := by
  unfold atomic at failed
  rcases opened : begin here s with ⟨x | _, u⟩
  · rw [opened] at failed
    have never := plain_begin s here fault
    rw [opened] at never
    exact absurd (congrArg Except.error (Except.error.inj failed)) never
  · refine ⟨u, rfl, ?_⟩
    rw [opened] at failed
    refine fault_of_bind plain_committed ?_
    rcases closed : (do let value ← operation; commit; pure value : Service mls α) here u with
      ⟨x | a, v⟩
    · simp only [closed] at failed
      exact failed
    · simp only [closed] at failed
      cases failed

theorem atomic_fails {x : Error} {u : Session mls}
    (opened : begin here s = (.ok (), u)) (failed : (operation here u).1 = .error x) :
    (atomic operation here s).1 = .error x := by
  have stopped : operation here u = (.error x, (operation here u).2) := Prod.ext failed rfl
  unfold atomic
  rw [opened]
  dsimp only
  rw [bind_of_error stopped]

/-- A rejection is the event's: the same tables reject it on a machine where storage works. -/
theorem settleEvent_rejected (blames : Blames mls) {own : Option OutboxRow} (coherent : Coherent s)
    (rostered : Rostered s.store) (stands : Stands false s)
    (rejected : (settleEvent e event own here s).1 = .error (.processing .rejected))
    (works : Works again) {t : Session mls} (tables : t.store = s.store)
    (kept : Coherent t) (standing : Stands false t) :
    (settleEvent e event own again t).1 = .error (.processing .rejected) := by
  obtain ⟨u, opened, failed⟩ := fault_of_atomic rejected
  obtain ⟨_, v, opening, right, two⟩ := returns_begin works standing
  have start := (ends_begin (s := s)).and (rests_begin (.inr stands)) here
  rw [opened] at start
  obtain ⟨left, -, inside⟩ := start
  have one := inside () rfl
  have ready : Ready event.id u v := by
    refine ⟨⟨?_, one.owner.trans two.owner.symm, one.poisoned, two.poisoned⟩,
      left.coherent coherent, right.coherent kept, ?_⟩
    · rw [left.store, right.store, tables]
    · rw [left.store]
      exact rostered
  have verdict : (effect e event own here u).1 = .error (.processing .rejected) :=
    fault_of_bind (fun _ => plain_finishEvent) failed
  have again : (effect e event own again v).1 = .error (.processing .rejected) := by
    unfold effect at verdict ⊢
    split at verdict
    · exact absurd verdict (plain_applyOwn u here .rejected)
    rename_i other
    rw [if_neg other]
    rcases matches_applyPeer (fun _ => blames) here again u v (.inl rfl) works ready with
      ⟨x, same, -, excused⟩ | ⟨same, -⟩
    · rw [verdict] at same
      exact absurd (Except.error.inj same).symm excused
    · rw [← same]
      exact verdict
  have stopped : effect e event own _ v = (.error (.processing .rejected), _) := Prod.ext again rfl
  refine atomic_fails opening ?_
  rw [bind_of_error stopped]

theorem gives_verdict : (verdict e event).Gives here s fun r _ =>
    cursorOf s.store event.operation.room = event.operation.parent.toNat ∧
      ∃ t, Keeps s t ∧ (t.owner = s.owner ∧ t.poisoned = s.poisoned) ∧
        (settleEvent e event (s.store.findOutbox event.id) here t).1 = r := by
  have reads : ∀ {β : Type} (read : Store mls → β) (u : Session mls),
      (query read).Yields u fun a t => (a = read u.store ∧ Keeps u t) ∧
        t.owner = u.owner ∧ t.poisoned = u.poisoned := fun read u =>
    (ends_query.and (steady_query read u)).yields.mono fun a t reached =>
      ⟨⟨reached.1.2 a rfl, reached.1.1⟩, reached.2⟩
  refine (reads _ s).gives.bind fun current t reached => ?_
  obtain ⟨⟨rfl, first⟩, kept⟩ := reached
  split
  · exact yields_fail.gives
  rename_i placed
  refine (reads _ t).gives.bind fun own u reached => ?_
  obtain ⟨⟨rfl, second⟩, steady⟩ := reached
  intro r v result
  refine ⟨not_not.mp placed, u, first.trans second,
    ⟨steady.1.trans kept.1, steady.2.trans kept.2⟩, ?_⟩
  rw [← first.store]
  exact Except.ok.inj (congrArg Prod.fst result)

theorem returns_verdict (works : Works here) (stands : Stands false s)
    (placed : cursorOf s.store event.operation.room = event.operation.parent.toNat) :
    ∃ t, Keeps s t ∧ Stands false t ∧ verdict e event here s =
      (.ok (settleEvent e event (s.store.findOutbox event.id) here t).1,
        (settleEvent e event (s.store.findOutbox event.id) here t).2) := by
  obtain ⟨_, t, read, rfl, first, standing⟩ := returns_query works stands fun store =>
    cursorOf store event.operation.room
  obtain ⟨_, u, looked, rfl, second, standing⟩ := returns_query works standing fun store =>
    store.findOutbox event.id
  refine ⟨u, first.trans second, standing, ?_⟩
  unfold verdict cursor
  rw [bind_of_ok read, if_neg (not_not.mpr placed), bind_of_ok looked, first.store]
  rfl

theorem verdict_rejected (blames : Blames mls) (coherent : Coherent s) (rostered : Rostered s.store)
    (stands : Stands false s)
    (rejected : (verdict e event here s).1 = .ok (.error (.processing .rejected)))
    (works : Works again) : (verdict e event again s).1 = .ok (.error (.processing .rejected)) := by
  have ran : verdict e event here s = (.ok (.error (.processing .rejected)),
    (verdict e event here s).2) := Prod.ext rejected rfl
  obtain ⟨placed, t, keeps, ⟨owner, standing⟩, failed⟩ := gives_verdict _ _ ran
  obtain ⟨u, kept, two, result⟩ := returns_verdict (e := e) works stands placed
  rw [result]
  have tables : u.store = t.store := kept.store.trans keeps.store.symm
  refine congrArg Except.ok (settleEvent_rejected blames (keeps.coherent coherent) ?_ ?_ failed works
    tables (kept.coherent coherent) two)
  · rw [keeps.store]
    exact rostered
  · exact ⟨owner.trans stands.owner, standing.trans stands.poisoned⟩

end Verdicts

section Durable

/-- What settling an event in a state makes durable whatever the event is. -/
structure Settlement (e : Engine mls) (before : Store mls) (event : Event) (state : ProcessingState)
    (after : Store mls) : Prop where
  cursor : cursorOf after event.operation.room = event.operation.parent.toNat + 1
  row : after.deliveryInbox = (before.setInboxState event.id state).deliveryInbox
  receipt : Carries after (acknowledgementId e.crypto.sha256 e.user [event.id] [])
    (.acknowledge [event.id] [])

/-- An event of one's own: its attempt and intent are gone, its history row has its place and a
commit is merged. -/
structure OwnApplied (before : Store mls) (event : Event) (after : Store mls) : Prop where
  attempted : Entry before event.id (.appendRoomOperation event.operation)
  removed : ¬Carries after event.id (.appendRoomOperation event.operation)
  intents : ∀ row, row ∈ after.deliveryIntents ↔
    row ∈ before.deliveryIntents ∧ row.attempt ≠ some event.id
  history : after.authenticatedHistory = (before.setHistorySequence event.id
    (event.operation.parent.toNat + 1)).authenticatedHistory
  group : if event.operation.contentType = .commit then
      ∃ group identities next, before.mlsGroups event.operation.room = some group ∧
        mls.applyPendingCommit identities group = (.ok (), next) ∧
        after.mlsGroups = Function.update before.mlsGroups event.operation.room (some next)
    else after.mlsGroups = before.mlsGroups

/-- An event of another sender: the group is as the library left it, and a message is recorded. -/
structure PeerApplied (before : Store mls) (event : Event) (after : Store mls) : Prop where
  processed : ∃ outcome middle, Processes before event outcome middle ∧
    after.mlsGroups = middle.mlsGroups ∧
    match outcome with
    | .application plaintext _ => after.authenticatedHistory =
        (before.recordPlaintext ⟨event.id, event.operation.room, event.operation.parent.toNat + 1,
          event.sender, plaintext⟩).authenticatedHistory
    | .commit _ => after.authenticatedHistory = before.authenticatedHistory

structure Unapplied (before after : Store mls) : Prop where
  groups : after.mlsGroups = before.mlsGroups
  history : after.authenticatedHistory = before.authenticatedHistory
  intents : after.deliveryIntents = before.deliveryIntents

variable {before middle after : Store mls} {state : ProcessingState}

theorem settlement_of_finishes (finishes : Finishes e middle event state after)
    (inbox : middle.deliveryInbox = before.deliveryInbox) :
    Settlement e before event state after := by
  refine ⟨?_, ?_, (journals_carries finishes.2).mpr (.inr ⟨rfl, rfl⟩)⟩
  · rw [journals_rest finishes.2]
    change (Function.update middle.deliveryCursors event.operation.room _ _).getD 0 = _
    rw [Function.update_self]
    rfl
  · rw [(finishes_tables finishes).1]
    change middle.deliveryInbox.map _ = before.deliveryInbox.map _
    rw [inbox]

theorem unapplied_of_finishes (finishes : Finishes e middle event state after) :
    Unapplied middle after := by
  obtain ⟨-, intents, -, history, groups⟩ := finishes_tables finishes
  exact ⟨groups, history, intents⟩

theorem ownApplied {next : Store mls}
    (attempt : Entry before event.id (.appendRoomOperation event.operation))
    (merges : if event.operation.contentType = .commit
      then Merges before event.operation.room next else next = before)
    (finishes : Finishes e (((next.removeOutbox event.id).deleteIntents event.id).setHistorySequence
      event.id (event.operation.parent.toNat + 1)) event state after) :
    OwnApplied before event after := by
  have rest := unapplied_of_finishes finishes
  have framed := merges_own merges
  refine ⟨attempt, fun held => ?_, fun row => ?_, ?_, ?_⟩
  · rcases (journals_carries finishes.2).mp held with kept | ⟨-, same⟩
    · exact (carries_removeOutbox.mp ((Carries.congr (by rfl)).mp kept)).1 rfl
    · cases same
  · rw [rest.intents, ← framed.1.intents]
    change row ∈ next.deliveryIntents.filter _ ↔ _
    rw [List.mem_filter, decide_eq_true_iff]
  · rw [rest.history]
    change next.authenticatedHistory.map _ = before.authenticatedHistory.map _
    rw [framed.2]
  rw [rest.groups]
  split at merges
  · rename_i commit
    obtain ⟨group, identities, merged, held, -, applied, rfl⟩ := merges
    rw [if_pos commit]
    exact ⟨group, identities, merged, held, applied, rfl⟩
  · rename_i commit
    rw [if_neg commit, merges]
    rfl

def Applied (e : Engine mls) (before : Store mls) (event : Event) (after : Store mls) : Prop :=
  if event.sender = e.user then OwnApplied before event after else PeerApplied before event after

theorem applied_of_finishes (applies : Applies e before event middle)
    (finishes : Finishes e middle event .applied after) :
    Settlement e before event .applied after ∧ Applied e before event after := by
  have inbox : middle.deliveryInbox = before.deliveryInbox := by
    rcases applies_cases applies with ⟨-, frame⟩ | ⟨-, -, releases⟩
    · exact frame.inbox
    · exact releases.inbox
  refine ⟨settlement_of_finishes finishes inbox, ?_⟩
  have rest := unapplied_of_finishes finishes
  unfold Applied
  cases applies with
  | own mine attempt merges =>
    rw [if_pos mine]
    exact ownApplied attempt merges finishes
  | @message plaintext next other processes =>
    rw [if_neg other]
    refine ⟨.application plaintext _, next, processes, ?_, ?_⟩
    · rw [rest.groups]
      rw [recordPlaintext_rest]
    · rw [rest.history]
      exact recordPlaintext_congr (by rw [regroups_processes processes])
  | @commit epoch _ other processes =>
    rw [if_neg other]
    refine ⟨.commit epoch, middle, processes, rest.groups, ?_⟩
    rw [rest.history, regroups_processes processes]

end Durable

section Results

/-- What `apply_event` answers and leaves durable after each verdict of its first transaction. -/
def Concluded (e : Engine mls) (before : Store mls) (event : Event) (result : Except Error Bool)
    (after : Store mls) : Except Error (Except Error Unit) → Prop
  | .ok (.ok _) => Settlement e before event .applied after ∧ Applied e before event after
  | .ok (.error (.processing .rejected)) =>
    (result = .ok true ∧ Settlement e before event .rejected after ∧ Unapplied before after) ∨
      (∃ x, result = .error x) ∧ after = before
  | .ok (.error (.processing .blocked)) =>
    (result = .ok false ∧ after = before.setInboxState event.id .blocked) ∨
      (∃ x, result = .error x) ∧ after = before
  | .ok (.error other) => result = .error other ∧ after = before
  | .error other => result = .error other ∧ after = before

variable {s : Session mls}

theorem ends_conclude {t : Session mls} {outcome : Except Error Unit} (coherent : Coherent t)
    (reached : match outcome with
      | .ok _ => ∃ middle, Applies e s.store event middle ∧ Finishes e middle event .applied t.store
      | .error _ => t.store = s.store) :
    (conclude e event outcome).Ends t fun r u => Coherent u ∧
      Concluded e s.store event r u.store (.ok outcome) := by
  unfold conclude
  split
  · obtain ⟨middle, applies, finishes⟩ := reached
    have notified : (onlyIf (event.sender = e.user ∧ event.operation.contentType = .application)
        call : Service mls Unit).Ends t fun _ u => Keeps t u := by
      unfold onlyIf
      split
      · exact ends_call
      · exact ends_pure (Keeps.refl t)
    have settled : ∀ u : Session mls, Keeps t u → Settlement e s.store event .applied u.store ∧
        Applied e s.store event u.store := by
      intro u keeps
      rw [keeps.store]
      exact applied_of_finishes applies finishes
    exact Ends.bind notified
      (fun _ u keeps => ends_pure ⟨keeps.coherent coherent, settled u keeps⟩)
      fun _ u keeps => ⟨keeps.coherent coherent, settled u keeps⟩
  · refine Ends.bind ends_update (fun _ u marked => ends_pure ?_) fun x u failed => ?_
    · refine ⟨coherent_of_groups coherent marked.1 (by rw [marked.2]; rfl), .inl ⟨rfl, ?_⟩⟩
      rw [marked.2, reached]
    · exact ⟨coherent_of_groups coherent failed.1 (by rw [failed.2]),
        .inr ⟨⟨x, rfl⟩, failed.2.trans reached⟩⟩
  · refine Ends.bind ends_rejectEvent (fun _ u done => ends_pure ?_) fun x u failed => ?_
    · have finishes : Finishes e t.store event .rejected u.store := done.2
      refine ⟨coherent_of_groups coherent done.1 (finishes_groups finishes), .inl ⟨rfl, ?_⟩⟩
      rw [reached] at finishes
      exact ⟨settlement_of_finishes finishes rfl, unapplied_of_finishes finishes⟩
    · have same : u.store = t.store := failed.2
      exact ⟨coherent_of_groups coherent failed.1 (by rw [same]),
        .inr ⟨⟨x, rfl⟩, same.trans reached⟩⟩
  · rename_i other blocked rejected
    refine ends_fail ⟨coherent, ?_⟩
    unfold Concluded
    split
    · rename_i same
      cases same
    · rename_i same
      obtain rfl := Except.error.inj (Except.ok.inj same)
      exact absurd rfl rejected
    · rename_i same
      obtain rfl := Except.error.inj (Except.ok.inj same)
      exact absurd rfl blocked
    · rename_i same
      obtain rfl := Except.error.inj (Except.ok.inj same)
      exact ⟨rfl, reached⟩
    · rename_i same
      cases same

theorem concluded_applyEvent (coherent : Coherent s) (here : Surroundings mls) :
    Coherent (applyEvent e event here s).2 ∧
      Concluded e s.store event (applyEvent e event here s).1 (applyEvent e event here s).2.store
        (verdict e event here s).1 := by
  have judged := @ends_verdict mls e event s coherent here
  rw [applyEvent_eq]
  rcases first : verdict e event here s with ⟨x | outcome, t⟩
  · rw [first] at judged
    rw [bind_of_error first]
    exact ⟨judged.1, rfl, judged.2⟩
  rw [first] at judged
  rw [bind_of_ok first]
  refine ends_conclude judged.1 ?_ here
  cases outcome with
  | ok _ => exact judged.2
  | error _ => exact judged.2

/-- Nothing of the event is durable but a mark on its row, and where storage works it is processed
as if it had not been tried. -/
structure Undone (e : Engine mls) (event : Event) (s t : Session mls) : Prop where
  store : t.store = s.store ∨ t.store = s.store.setInboxState event.id .blocked
  coherent : Coherent t
  rests : Rests t
  again : ∀ u first second, u.store = t.store → Coherent u → Stands false u →
    Works first → Works second →
    (applyEvent e event second u).1 = (applyEvent e event first s).1 ∧
      (∀ settled, (applyEvent e event first s).1 = .ok settled →
        (applyEvent e event second u).2.store = (applyEvent e event first s).2.store) ∧
      blank event.id (applyEvent e event second u).2.store =
        blank event.id (applyEvent e event first s).2.store

theorem undone {t : Session mls} (coherent : Coherent s) (rostered : Rostered s.store)
    (stands : Stands false s)
    (store : t.store = s.store ∨ t.store = s.store.setInboxState event.id .blocked)
    (kept : Coherent t) (rests : Rests t) : Undone e event s t := by
  refine ⟨store, kept, rests, fun u first second tables cached standing works working => ?_⟩
  have level : blank event.id s.store = blank event.id u.store := by
    rw [tables]
    rcases store with same | marked
    · rw [same]
    · rw [marked]
      exact (setInboxState_blank s.store .blocked).symm
  have ready : Ready event.id s u := ⟨⟨level, stands.owner.trans standing.owner.symm, stands.poisoned,
    standing.poisoned⟩, coherent, cached, rostered⟩
  rcases matches_applyEvent first second s u (.inr works) working ready with
    ⟨_, -, excuse⟩ | ⟨same, leaves, exactly⟩
  · exact absurd excuse.1 Bool.false_ne_true
  · exact ⟨same.symm, fun settled done => (exactly settled done).tables.symm, leaves.tables.symm⟩

/-- An event is applied with all that belongs to it, or rejected by a verdict that no storage
failure brought about, or as good as not tried. -/
theorem event_settling (blames : Blames mls) (coherent : Coherent s) (rostered : Rostered s.store)
    (stands : Stands false s) (here : Surroundings mls) :
    ((verdict e event here s).1 = .ok (.ok ()) ∧
      Settlement e s.store event .applied (applyEvent e event here s).2.store ∧
      Applied e s.store event (applyEvent e event here s).2.store) ∨
    ((verdict e event here s).1 = .ok (.error (.processing .rejected)) ∧
      (∀ again, Works again →
        (verdict e event again s).1 = .ok (.error (.processing .rejected))) ∧
      (applyEvent e event here s).1 = .ok true ∧
      Settlement e s.store event .rejected (applyEvent e event here s).2.store ∧
      Unapplied s.store (applyEvent e event here s).2.store) ∨
    ((verdict e event here s).1 ≠ .ok (.ok ()) ∧ (applyEvent e event here s).1 ≠ .ok true ∧
      Undone e event s (applyEvent e event here s).2) := by
  obtain ⟨kept, concluded⟩ := @concluded_applyEvent mls e event s coherent here
  have rests := @rests_applyEvent mls s e event (.inr stands) here
  have undone : ((applyEvent e event here s).2.store = s.store ∨
      (applyEvent e event here s).2.store = s.store.setInboxState event.id .blocked) →
      Undone e event s (applyEvent e event here s).2 := fun store =>
    undone coherent rostered stands store kept rests
  rcases judged : (verdict e event here s).1 with other | ⟨failure | _⟩
  · rw [judged] at concluded
    obtain ⟨failed, same⟩ := concluded
    refine .inr (.inr ⟨nofun, ?_, undone (.inl same)⟩)
    rw [failed]
    nofun
  · rw [judged] at concluded
    unfold Concluded at concluded
    split at concluded
    · rename_i none
      cases none
    · rename_i rejected
      obtain rfl := Except.error.inj (Except.ok.inj rejected)
      rcases concluded with ⟨done, settlement, unapplied⟩ | ⟨⟨x, failed⟩, same⟩
      · exact .inr (.inl ⟨rfl, fun again works => verdict_rejected blames coherent rostered stands
          judged works, done, settlement, unapplied⟩)
      · refine .inr (.inr ⟨nofun, ?_, undone (.inl same)⟩)
        rw [failed]
        nofun
    · rcases concluded with ⟨done, marked⟩ | ⟨⟨x, failed⟩, same⟩
      · refine .inr (.inr ⟨nofun, ?_, undone (.inr marked)⟩)
        rw [done]
        nofun
      · refine .inr (.inr ⟨nofun, ?_, undone (.inl same)⟩)
        rw [failed]
        nofun
    · obtain ⟨failed, same⟩ := concluded
      refine .inr (.inr ⟨nofun, ?_, undone (.inl same)⟩)
      rw [failed]
      nofun
    · rename_i none
      cases none
  · rw [judged] at concluded
    exact .inl ⟨rfl, concluded⟩

theorem admitted_cases {p q : Provider} (wider : ∀ identity, p identity = true → q identity = true)
    (group : Cleartext.Group) (members : List Cleartext.Member) :
    group.admitted q members = group.admitted p members ∨
      group.admitted p members = .error .identityProvider := by
  unfold Cleartext.Group.admitted
  split
  · rename_i m
    split
    · exact .inl rfl
    by_cases known : p m.identity = true
    · rw [if_pos known, if_pos (wider _ known)]
      exact .inl rfl
    · rw [if_neg known]
      exact .inr rfl
  · exact .inl rfl

theorem blames_cleartext : Blames Cleartext.mls := by
  intro p q group message wider provider storage
  change Cleartext.Group.process q group message = Cleartext.Group.process p group message
  change (Cleartext.Group.process p group message).1 ≠ .error .identityProvider at provider
  unfold Cleartext.Group.process at provider ⊢
  split
  · rfl
  rename_i placed
  rw [if_neg placed] at provider
  cases kind : message.kind with
  | commit =>
    rw [kind] at provider
    have same : group.admitted q message.members = group.admitted p message.members := by
      rcases admitted_cases wider group message.members with same | refused
      · exact same
      · simp [refused] at provider
    simp only [same]
  | _ => rfl

theorem Reachable.rostered {identity : mls.MlsClient → SigningIdentity} (laws : PendingLaws mls)
    (rosters : RosterLaws mls identity)
    (mine : identity e.client = ⟨some e.user.bytes.toList, e.mlsKey.toList⟩) {c : Process mls}
    (reachable : Reachable e c) : Rostered c.store := by
  have trusted := Reachable.trusted laws rosters mine reachable
  intro room group held member listed
  exact verifies_iff.mpr ((trusted.vetted.groups room group held).1 member listed)

def garbled : Event where
  id := sampleId 70
  sender := sampleUser 2
  operation := ⟨sampleRoom 9, 0, 0, .application, [1], none⟩

def reopened : Session Cleartext.mls := opened founded.store

theorem rostered_reopened : Rostered reopened.store := by
  dsimp only [reopened, opened]
  exact Reachable.rostered pendingLaws_cleartext rosterLaws_cleartext rfl reachable_founded

theorem event_settling_garbled :
    Settlement (clearEngine (sampleUser 1)) reopened.store garbled .rejected
      (applyEvent (clearEngine (sampleUser 1)) garbled calm reopened).2.store := by
  have judged : (verdict (clearEngine (sampleUser 1)) garbled calm reopened).1 =
      .ok (.error (.processing .rejected)) := by decide +kernel
  have answered : (applyEvent (clearEngine (sampleUser 1)) garbled calm reopened).1 = .ok true := by
    decide +kernel
  rcases @event_settling _ _ garbled reopened blames_cleartext (coherent_opened founded.store)
    rostered_reopened ⟨rfl, rfl⟩ calm with
    ⟨applied, -⟩ | ⟨-, -, -, settlement, -⟩ | ⟨-, unanswered, -⟩
  · rw [judged] at applied
    cases applied
  · exact settlement
  · exact absurd answered unanswered

end Results

end Grotto.Client.Settling
