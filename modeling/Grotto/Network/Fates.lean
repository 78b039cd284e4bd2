/- GID: Grotto/Network/Fates
   digest: What becomes of the attempts of an intent; one of them at most is appended. -/

import Grotto.Network.Answers
import Grotto.Network.Provenance

set_option autoImplicit false

namespace Grotto.Network.Fates

open Protocol.Records Protocol.Sizes
open Client.Library Client.Tables Client.Delivery Client.Changes
open Client.Frames Client.Consistency Client.Machine Client.Intents
open Model Ledger Mirror Provenance
open Relay.Storage (Db)
open Relay.Idempotence (Saved)
open Relay.Log (Extends)

variable {mls : Mls} {d : Deployment mls} {s t u : System mls} {past history : List (System mls)}
variable {user : UserId} {e : Engine mls} {intent id : MessageId}

section Attempts

/-- In one of the states the intent waits for an attempt under the identifier. -/
def Attempted (states : List (System mls)) (user : UserId) (intent id : MessageId) : Prop :=
  ∃ state ∈ states, ∃ row ∈ (state.clients user).store.deliveryIntents,
    row.id = intent ∧ row.attempt = some id

def Logs (db : Db) (id : MessageId) : Prop := ∃ row ∈ db.deliveryEvents, row.eventId = id

def Declined (d : Deployment mls) (s : System mls) (user : UserId) (id : MessageId) : Prop :=
  ∃ request response, Booked d.sha256 s.relay user id request response ∧
    ∀ event, response ≠ .appendAccepted event

inductive Fate (d : Deployment mls) (s : System mls) (user : UserId) (intent id : MessageId) : Prop
  | waiting {row : IntentRow} (planned : row ∈ (s.clients user).store.deliveryIntents)
      (named : row.id = intent) (attempt : row.attempt = some id)
  | declined (declined : Declined d s user id)
  | applied (logged : Logs s.relay id)
      (gone : ∀ row ∈ (s.clients user).store.deliveryIntents, row.id ≠ intent)

theorem Logs.mono {db next : Db} (logged : Logs db id) (grown : Extends db next) : Logs next id := by
  obtain ⟨row, present, named⟩ := logged
  exact ⟨row, grown.events.subset present, named⟩

theorem Declined.mono (declined : Declined d s user id) (grown : Extends s.relay t.relay) :
    Declined d t user id := by
  obtain ⟨request, response, booked, other⟩ := declined
  exact ⟨request, response, booked.mono grown, other⟩

theorem Declined.unlogged (declined : Declined d s user id) (joint : Joint d s)
    (runs : d.engine user = some e) (drawn : (user, id) ∈ s.drawn) : ¬Logs s.relay id := by
  rintro ⟨row, present, rfl⟩
  obtain ⟨request, response, booked, other⟩ := declined
  obtain ⟨operation, -, -, accepted⟩ := booked_of_logged joint runs present drawn
  exact other _ (saved_unique booked.saved accepted.saved)

theorem attempted_drawn (run : Run d s past) (runs : d.engine user = some e)
    (attempted : Attempted (s :: past) user intent id) : (user, id) ∈ s.drawn := by
  induction run with
  | start =>
    obtain ⟨state, listed, row, present, -⟩ := attempted
    obtain rfl := List.mem_singleton.mp listed
    cases present
  | @step s t past action before taken apart ih =>
    have run := Run.step before taken apart
    obtain ⟨state, listed, row, present, rest⟩ := attempted
    rcases List.mem_cons.mp listed with rfl | earlier
    · have accounts := (joint_run run).accounts user e runs
      obtain ⟨request, carries, serves⟩ := accounts.sound.linked.attempted row present id rest.2
      rcases accounts.entries id request carries with receipt | drawn
      · cases request with
        | acknowledge _ _ => cases serves
        | _ => cases receipt
      · exact drawn
    · exact drawn_mono run s (List.mem_cons_of_mem _ List.mem_cons_self)
        (ih ⟨state, earlier, row, present, rest⟩)

end Attempts

section Steps

variable {other : MessageId} {fresh : MessageId → Prop}

theorem Fate.elsewhere (fate : Fate d s user intent id)
    (clients : (t.clients user).store = (s.clients user).store) (grown : Extends s.relay t.relay) :
    Fate d t user intent id := by
  cases fate with
  | waiting planned named attempt => exact .waiting (by rw [clients]; exact planned) named attempt
  | declined declined => exact .declined (declined.mono grown)
  | applied logged gone => exact .applied (logged.mono grown) (by rw [clients]; exact gone)

theorem absent_of_evolution {store after : Store mls}
    {known : MessageId × Request → Response → Prop} {next : IntentRow → Option IntentRow}
    {new : List IntentRow} (evolution : Evolution e known fresh store after next new)
    (pool : ∀ id, fresh id → id ≠ intent)
    (ended : ∀ row ∈ store.deliveryIntents, row.id = intent → next row = none) :
    ∀ row ∈ after.deliveryIntents, row.id ≠ intent := by
  intro row present named
  rcases evolution.origin present with ⟨old, held, becomes, evolves⟩ | added
  · rw [ended old held (evolves.same.1.symm.trans named)] at becomes
    cases becomes
  · exact pool row.id (evolution.fresh row added).1 named

theorem booked_of_rejection (joint : Joint d s) (mirrors : Mirrors d s user)
    (runs : d.engine user = some e) {row : IntentRow} {request : Request} {reason : Rejection}
    (planned : row ∈ (s.clients user).store.deliveryIntents) (waiting : row.attempt = some id)
    (carries : Carries (s.clients user).store id request)
    (answer : (s.clients user).known (id, request) (.rejected reason))
    (lasting : isPassing reason = false) :
    Booked d.sha256 s.relay user id request (.rejected reason) := by
  have accounts := joint.accounts user e runs
  have receipt : request.isAcknowledge = false := by
    have serves := accounts.sound.linked.serves planned waiting carries
    cases request with
    | acknowledge _ _ => cases serves
    | _ => rfl
  refine booked_of_told (accounts.told _ _ (.inr answer)) (mirrors.durable id request carries) receipt ?_
  intro given same
  cases same
  exact lasting

/-- A durable change of the client moves an attempt on: answered for good, or applied from the
log. -/
theorem Fate.commits (fate : Fate d s user intent id) (joint : Joint d s) (mirrors : Mirrors d s user)
    (runs : d.engine user = some e) (pool : ∀ id, fresh id → id ≠ intent)
    (commits : Commits e (s.clients user).asked (s.clients user).known fresh (s.clients user).store
      (t.clients user).store) (relay : t.relay = s.relay) : Fate d t user intent id := by
  have accounts := joint.accounts user e runs
  have linked := accounts.sound.linked
  have stays : Declined d s user id → Fate d t user intent id :=
    fun declined => .declined (declined.mono (by rw [relay]; exact Extends.refl _))
  obtain ⟨next, new, evolution⟩ := intents_evolve linked commits
  cases fate with
  | declined declined => exact stays declined
  | applied logged gone =>
    refine .applied (by rw [relay]; exact logged) ?_
    exact absent_of_evolution evolution pool fun row present named => absurd named (gone row present)
  | @waiting row planned named attempt =>
    have evolves := evolution.evolves row planned
    generalize becomes : next row = after at evolves
    cases evolves with
    | kept =>
      refine .waiting ?_ named attempt
      rw [evolution.intents]
      exact List.mem_append_left _ (List.mem_filterMap.mpr ⟨row, planned, becomes⟩)
    | attempted idle =>
      rw [attempt] at idle
      cases idle
    | reserved own _ answer _ =>
      obtain rfl := Option.some.inj (attempt.symm.trans own)
      exact stays ⟨_, _, booked_of_told (accounts.told _ _ (.inr answer)) rfl rfl nofun, nofun⟩
    | conflicted own answer _ _ =>
      obtain rfl := Option.some.inj (attempt.symm.trans own)
      exact stays ⟨_, _, booked_of_told (accounts.told _ _ (.inr answer)) rfl rfl nofun, nofun⟩
    | @refused _ request reason own carries answer lasting _ =>
      obtain rfl := Option.some.inj (attempt.symm.trans own)
      exact stays ⟨_, _, booked_of_rejection joint mirrors runs planned attempt carries answer lasting,
        nofun⟩
    | @applied event own _ ready _ _ =>
      obtain rfl := Option.some.inj (attempt.symm.trans own)
      obtain ⟨bytes, state, encodes, place⟩ := ready.held
      obtain ⟨found, ⟨⟨log, logged, holds⟩, -⟩, read, -⟩ := mirrors.inbox _ place
      obtain rfl := event_eq_of_encode encodes read
      refine .applied (by rw [relay]; exact ⟨log, logged, holds.id.symm⟩) ?_
      refine absent_of_evolution evolution pool fun old held same => ?_
      rw [List.inj_on_of_nodup_map linked.intents held planned (same.trans named.symm)]
      exact becomes

theorem once_of_fates (linked : Linked (s.clients user).store)
    (first : Fate d s user intent id) (second : Fate d s user intent other)
    (left : ¬Declined d s user id) (right : ¬Declined d s user other)
    (once : Logs s.relay id → Logs s.relay other → id = other) : id = other := by
  cases first with
  | declined declined => exact absurd declined left
  | waiting planned named attempt =>
    cases second with
    | declined declined => exact absurd declined right
    | waiting planned' named' attempt' =>
      have same := List.inj_on_of_nodup_map linked.intents planned planned' (named.trans named'.symm)
      rw [same, attempt'] at attempt
      exact (Option.some.inj attempt).symm
    | applied _ gone => exact absurd named (gone _ planned)
  | applied logged gone =>
    cases second with
    | declined declined => exact absurd declined right
    | waiting planned named _ => exact absurd named (gone _ planned)
    | applied logged' _ => exact once logged logged'

end Steps

section Runs

structure Traced (d : Deployment mls) (s : System mls) (past : List (System mls)) (user : UserId) :
    Prop where
  fates : ∀ intent id, Attempted (s :: past) user intent id → Fate d s user intent id
  once : ∀ intent id other, Attempted (s :: past) user intent id →
    Attempted (s :: past) user intent other → Logs s.relay id → Logs s.relay other → id = other

theorem attempted_origin {fresh : MessageId → Prop} (linked : Linked (s.clients user).store)
    (commits : Commits e (s.clients user).asked (s.clients user).known fresh (s.clients user).store
      (t.clients user).store) (attempted : Attempted (t :: s :: past) user intent id) :
    Attempted (s :: past) user intent id ∨ fresh id := by
  obtain ⟨state, listed, row, present, named, attempt⟩ := attempted
  rcases List.mem_cons.mp listed with rfl | earlier
  · obtain ⟨next, new, evolution⟩ := intents_evolve linked commits
    rcases attempt_origin evolution present attempt with held | ⟨new, -⟩
    · exact .inl ⟨s, List.mem_cons_self, row, held, named, attempt⟩
    · exact .inr new
  · exact .inl ⟨state, earlier, row, present, named, attempt⟩

theorem attempted_elsewhere (clients : (t.clients user).store = (s.clients user).store)
    (attempted : Attempted (t :: s :: past) user intent id) : Attempted (s :: past) user intent id := by
  obtain ⟨state, listed, row, present, rest⟩ := attempted
  rcases List.mem_cons.mp listed with rfl | earlier
  · rw [clients] at present
    exact ⟨s, List.mem_cons_self, row, present, rest⟩
  · exact ⟨state, earlier, row, present, rest⟩

theorem planned_of_attempted {states : List (System mls)}
    (attempted : Attempted states user intent id) : EverPlanned states user intent := by
  obtain ⟨state, listed, row, present, named, -⟩ := attempted
  exact ⟨state, listed, row, present, named⟩

theorem unlogged_of_unspent (joint : Joint d s) (runs : d.engine user = some e)
    (unspent : Unspent s past user id) : ¬Logs s.relay id := by
  rintro ⟨row, present, rfl⟩
  obtain ⟨operation, -, sent, -⟩ := booked_of_logged joint runs present unspent.drawn
  cases unspent.unsent _ sent

theorem Traced.elsewhere (traced : Traced d s past user) (before : Run d s past) (after : Run d t (s :: past))
    (runs : d.engine user = some e) (clients : (t.clients user).store = (s.clients user).store)
    (grown : Extends s.relay t.relay) : Traced d t (s :: past) user := by
  refine ⟨fun intent id attempted => ?_, fun intent id other first second left right => ?_⟩
  · exact (traced.fates intent id (attempted_elsewhere clients attempted)).elsewhere clients grown
  have unlogged : ∀ named, Attempted (t :: s :: past) user intent named → Logs t.relay named →
      ¬Declined d s user named := fun named attempted logged declined =>
    (declined.mono grown).unlogged (joint_run after) runs (attempted_drawn after runs attempted) logged
  exact once_of_fates ((joint_run before).accounts user e runs).sound.linked
    (traced.fates intent id (attempted_elsewhere clients first))
    (traced.fates intent other (attempted_elsewhere clients second))
    (unlogged id first left) (unlogged other second right)
    (traced.once intent id other (attempted_elsewhere clients first)
      (attempted_elsewhere clients second))

theorem traced_run (run : Run d s past) (runs : d.engine user = some e) : Traced d s past user := by
  induction run with
  | start =>
    have none : ∀ intent id, ¬Attempted [System.start mls] user intent id := by
      rintro intent id ⟨state, listed, row, present, -⟩
      obtain rfl := List.mem_singleton.mp listed
      cases present
    exact ⟨fun intent id attempted => absurd attempted (none intent id),
      fun intent id _ attempted => absurd attempted (none intent id)⟩
  | @step s t past action before taken apart ih =>
    have after := Run.step before taken apart
    cases turn_of_step before runs taken apart with
    | elsewhere store grown => exact ih.elsewhere before after runs store grown
    | @own fresh pool commits relay =>
      have joint := joint_run before
      have linked := (joint.accounts user e runs).sound.linked
      have unlogged : ∀ id, fresh id → ¬Logs t.relay id := by
        rw [relay]
        exact fun id drawn => unlogged_of_unspent joint runs (pool id drawn)
      refine ⟨fun intent id attempted => ?_, fun intent id other first second left right => ?_⟩
      · by_cases old : Attempted (s :: past) user intent id
        · refine (ih.fates intent id old).commits joint (mirrors_run before runs) runs ?_ commits relay
          rintro drawn new rfl
          exact (pool drawn new).unplanned (planned_of_attempted old)
        · obtain ⟨state, listed, row, present, named, attempt⟩ := attempted
          rcases List.mem_cons.mp listed with rfl | earlier
          · exact .waiting present named attempt
          · exact absurd ⟨state, earlier, row, present, named, attempt⟩ old
      · rcases attempted_origin linked commits first with old | drawn
        · rcases attempted_origin linked commits second with old' | drawn
          · rw [relay] at left right
            exact ih.once intent id other old old' left right
          · exact absurd right (unlogged other drawn)
        · exact absurd left (unlogged id drawn)

theorem run_suffix {before : List (System mls)} (run : Run d u history)
    (suffix : (t :: before) <:+ (u :: history)) : Run d t before ∧ Extends t.relay u.relay := by
  induction run with
  | start =>
    rcases List.suffix_cons_iff.mp suffix with same | shorter
    · cases same
      exact ⟨.start, Extends.refl _⟩
    · cases List.suffix_nil.mp shorter
  | @step s u past action earlier taken apart ih =>
    rcases List.suffix_cons_iff.mp suffix with same | shorter
    · cases same
      exact ⟨.step earlier taken apart, Extends.refl _⟩
    obtain ⟨run, grown⟩ := ih shorter
    refine ⟨run, grown.trans ?_⟩
    cases step_steps taken with
    | client | post => exact Extends.refl _
    | fail | execute => exact Relay.Log.extends_deliver _ _ _ _ _ _

/-- A deleted intent does not come back: it is not planned again and gets no further attempts. -/
theorem closed_stays (run : Run d u history) (runs : d.engine user = some e)
    {before : List (System mls)} (suffix : (t :: before) <:+ (u :: history))
    (planned : EverPlanned before user intent)
    (gone : ∀ row ∈ (t.clients user).store.deliveryIntents, row.id ≠ intent) :
    (∀ row ∈ (u.clients user).store.deliveryIntents, row.id ≠ intent) ∧
      ∀ id, Attempted (u :: history) user intent id → Attempted before user intent id := by
  have first : (∀ row ∈ (t.clients user).store.deliveryIntents, row.id ≠ intent) →
      ∀ id, Attempted (t :: before) user intent id → Attempted before user intent id := by
    rintro gone id ⟨state, listed, row, present, named, attempt⟩
    rcases List.mem_cons.mp listed with rfl | earlier
    · exact absurd named (gone row present)
    · exact ⟨state, earlier, row, present, named, attempt⟩
  induction run with
  | start =>
    rcases List.suffix_cons_iff.mp suffix with same | shorter
    · cases same
      exact ⟨gone, first gone⟩
    · cases List.suffix_nil.mp shorter
  | @step s u past action earlier taken apart ih =>
    rcases List.suffix_cons_iff.mp suffix with same | shorter
    · cases same
      exact ⟨gone, first gone⟩
    obtain ⟨absent, attempts⟩ := ih shorter
    have still : ∀ row ∈ (u.clients user).store.deliveryIntents, row.id ≠ intent := by
      cases turn_of_step earlier runs taken apart with
      | elsewhere store _ =>
        rw [store]
        exact absent
      | own pool commits _ =>
        have linked := ((joint_run earlier).accounts user e runs).sound.linked
        obtain ⟨next, new, evolution⟩ := intents_evolve linked commits
        refine absent_of_evolution evolution ?_ fun row present named =>
          absurd named (absent row present)
        rintro drawn new rfl
        obtain ⟨state, listed, rest⟩ := planned
        exact (pool drawn new).unplanned
          ⟨state, shorter.subset (List.mem_cons_of_mem _ listed), rest⟩
    refine ⟨still, fun id attempted => attempts id ?_⟩
    obtain ⟨state, listed, row, present, named, attempt⟩ := attempted
    rcases List.mem_cons.mp listed with rfl | old
    · exact absurd named (still row present)
    · exact ⟨state, old, row, present, named, attempt⟩

end Runs

section Once

theorem logged_of_ready (run : Run d s past) (runs : d.engine user = some e) {event : Event}
    (ready : AtCursor (s.clients user).store event) : Logs s.relay event.id := by
  obtain ⟨bytes, state, encodes, place⟩ := ready.held
  obtain ⟨found, ⟨⟨log, logged, holds⟩, -⟩, read, -⟩ := (mirrors_run run runs).inbox _ place
  obtain rfl := event_eq_of_encode encodes read
  exact ⟨log, logged, holds.id.symm⟩

theorem declined_of_rejection (run : Run d s past) (runs : d.engine user = some e) {row : IntentRow}
    (planned : row ∈ (s.clients user).store.deliveryIntents) (waiting : row.attempt = some id)
    (declined : Declined d s user id) {other : MessageId}
    (attempted : Attempted (s :: past) user row.id other) : Declined d s user other := by
  have linked := ((joint_run run).accounts user e runs).sound.linked
  cases (traced_run run runs).fates row.id other attempted with
  | declined declined => exact declined
  | applied _ gone => exact absurd rfl (gone row planned)
  | waiting held named attempt =>
    have same := List.inj_on_of_nodup_map linked.intents held planned named
    rw [same, waiting] at attempt
    rw [← Option.some.inj attempt]
    exact declined

/-- In every run, whatever is lost, repeated, answered in the relay's place or interleaved: two
events of the log that were attempts of one intent are one event. An intent that is deleted because
its event was applied has exactly one event in the log from then on. Any other deletion follows a
journaled lasting rejection of its attempt, and the log never has an event of the intent. -/
theorem append_exactly_once (run : Run d u history) (runs : d.engine user = some e) :
    (∀ intent, ∀ log ∈ u.relay.deliveryEvents, ∀ other ∈ u.relay.deliveryEvents,
      Attempted (u :: history) user intent log.eventId →
      Attempted (u :: history) user intent other.eventId → log = other) ∧
    ∀ (s t : System mls) past row, (t :: s :: past) <:+ (u :: history) →
      row ∈ (s.clients user).store.deliveryIntents →
      (∀ kept ∈ (t.clients user).store.deliveryIntents, kept.id ≠ row.id) →
      (∀ event, AtCursor (s.clients user).store event →
        Settles e (s.clients user).store event (t.clients user).store →
        ∃! log, log ∈ u.relay.deliveryEvents ∧ Attempted (u :: history) user row.id log.eventId) ∧
      ((∀ event, AtCursor (s.clients user).store event →
        ¬Settles e (s.clients user).store event (t.clients user).store) →
        ∃ id request reason, row.attempt = some id ∧ isPassing reason = false ∧
          Saved d.sha256 s.relay user id request (.rejected reason) ∧
          ∀ log ∈ u.relay.deliveryEvents, ¬Attempted (u :: history) user row.id log.eventId) := by
  have single : ∀ intent, ∀ log ∈ u.relay.deliveryEvents, ∀ other ∈ u.relay.deliveryEvents,
      Attempted (u :: history) user intent log.eventId →
      Attempted (u :: history) user intent other.eventId → log = other := by
    intro intent log logged other listed first second
    have same := (traced_run run runs).once intent log.eventId other.eventId first second
      ⟨log, logged, rfl⟩ ⟨other, listed, rfl⟩
    exact (joint_run run).valid.log.row_of_id logged listed same
  refine ⟨single, fun s t past row suffix planned gone => ⟨fun event ready settles => ?_, fun other => ?_⟩⟩
  · obtain ⟨after, grown⟩ := run_suffix run suffix
    cases after with
    | step before taken apart =>
      have waiting := (settles_removed settles planned gone).2
      obtain ⟨log, logged, named⟩ := (logged_of_ready before runs ready).mono
        ((turn_of_step before runs taken apart).grown.trans grown)
      have attempted : Attempted (u :: history) user row.id log.eventId :=
        ⟨s, suffix.subset (List.mem_cons_of_mem _ List.mem_cons_self), row, planned, rfl,
          by rw [named]; exact waiting⟩
      exact ⟨log, ⟨logged, attempted⟩,
        fun found both => single row.id found both.1 log logged both.2 attempted⟩
  · obtain ⟨after, grown⟩ := run_suffix run suffix
    cases after with
    | step before taken apart =>
      have joint := joint_run before
      have accounts := joint.accounts user e runs
      have rejected : ∃ id request reason, row.attempt = some id ∧ isPassing reason = false ∧
          Booked d.sha256 s.relay user id request (.rejected reason) := by
        cases turn_of_step before runs taken apart with
        | elsewhere store _ =>
          rw [store] at gone
          exact absurd rfl (gone row planned)
        | own pool commits relay =>
          rcases commits_removed commits planned gone with
            ⟨event, ready, settles⟩ | ⟨id, request, response, entry, answer, completes⟩
          · exact absurd settles (other event ready)
          · obtain ⟨waiting, reason, rfl, lasting⟩ := completes_removed completes planned gone
            have carries := accounts.sound.linked.carries_of_entry entry
            exact ⟨id, request, reason, waiting, lasting, booked_of_rejection joint
              (mirrors_run before runs) runs planned waiting carries answer lasting⟩
      obtain ⟨id, request, reason, waiting, lasting, booked⟩ := rejected
      refine ⟨id, request, reason, waiting, lasting, booked.saved, fun log logged attempted => ?_⟩
      have earlier := (closed_stays run runs suffix
        ⟨s, List.mem_cons_self, row, planned, rfl⟩ gone).2 log.eventId attempted
      have declined := declined_of_rejection before runs planned waiting ⟨_, _, booked, nofun⟩ earlier
      have extended := (turn_of_step before runs taken apart).grown.trans grown
      exact (declined.mono extended).unlogged (joint_run run) runs (attempted_drawn run runs attempted)
        ⟨log, logged, rfl⟩

open Answers

theorem append_exactly_once_spoken :
    ∃! log, log ∈ spoken.1.relay.deliveryEvents ∧
      Attempted (spoken.1 :: spoken.2) (sampleUser 1) (sampleId 4) log.eventId := by
  have found : ∃ log ∈ spoken.1.relay.deliveryEvents,
      Attempted (spoken.1 :: spoken.2) (sampleUser 1) (sampleId 4) log.eventId := by
    unfold Attempted
    decide +kernel
  obtain ⟨log, logged, attempted⟩ := found
  refine ⟨log, ⟨logged, attempted⟩, fun other both => ?_⟩
  exact (append_exactly_once run_spoken rfl).1 (sampleId 4) other both.1 log logged both.2 attempted

end Once

end Grotto.Network.Fates
