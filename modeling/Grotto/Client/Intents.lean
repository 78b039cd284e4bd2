/- GID: Grotto/Client/Intents
   digest: Where intents come from, how they get and lose their attempts, and how they end. -/

import Grotto.Client.Outbox

set_option autoImplicit false

namespace Grotto.Client.Intents

open Format.Varint (Bytes)
open Protocol.Records
open Library Tables
open Delivery Changes Frames Consistency
open Outbox

variable {mls : Mls} {s t : Store mls} {e : Engine mls} {asked : UserCommand → Prop}
variable {known : MessageId × Request → Response → Prop} {fresh : MessageId → Prop}

inductive Evolves (e : Engine mls) (known : MessageId × Request → Response → Prop)
    (fresh : MessageId → Prop) (s t : Store mls) (row : IntentRow) : Option IntentRow → Prop
  | kept : Evolves e known fresh s t row (some row)
  | attempted {id : MessageId} {request : Request} {u : Store mls} (idle : row.attempt = none)
      (new : fresh id) (group : (s.mlsGroups row.room).isSome)
      (clear : isBlocked s row.room (cursorOf s row.room) = false)
      (builds : Builds e s row id (cursorOf s row.room) request u) (carries : Carries t id request) :
      Evolves e known fresh s t row (some { row with attempt := some id })
  | reserved {id : MessageId} {recipient : UserId} {package : Bytes} (waiting : row.attempt = some id)
      (target : row.target = some recipient)
      (answer : known (id, .reserveKeyPackage recipient) (.keyPackage recipient package))
      (gone : ∀ request, ¬Carries t id request) :
      Evolves e known fresh s t row (some { row with package := some package, attempt := none })
  | conflicted {id : MessageId} {operation : Append} {head : UInt64} (waiting : row.attempt = some id)
      (answer : known (id, .appendRoomOperation operation) (.headConflict operation.room head))
      (moved : head ≠ operation.parent) (gone : ∀ request, ¬Carries t id request) :
      Evolves e known fresh s t row (some { row with attempt := none })
  | refused {id : MessageId} {request : Request} {reason : Rejection} (waiting : row.attempt = some id)
      (carries : Carries s id request) (answer : known (id, request) (.rejected reason))
      (lasting : isPassing reason = false) (gone : ∀ request, ¬Carries t id request) :
      Evolves e known fresh s t row none
  | applied {event : Event} (waiting : row.attempt = some event.id) (mine : event.sender = e.user)
      (ready : AtCursor s event) (carries : Carries s event.id (.appendRoomOperation event.operation))
      (gone : ∀ operation, ¬Carries t event.id (.appendRoomOperation operation)) :
      Evolves e known fresh s t row none

/-- The intents after a durable change: what became of the earlier ones, of which at most one gets
an attempt, and new ones without an attempt. -/
structure Evolution (e : Engine mls) (known : MessageId × Request → Response → Prop)
    (fresh : MessageId → Prop) (s t : Store mls) (next : IntentRow → Option IntentRow)
    (new : List IntentRow) : Prop where
  intents : t.deliveryIntents = s.deliveryIntents.filterMap next ++ new
  evolves : ∀ row ∈ s.deliveryIntents, Evolves e known fresh s t row (next row)
  once : ∀ row ∈ s.deliveryIntents, ∀ other ∈ s.deliveryIntents, row.attempt = none →
    other.attempt = none → next row ≠ some row → next other ≠ some other → row = other
  fresh : ∀ row ∈ new, fresh row.id ∧ row.attempt = none ∧ row.package = none ∧
    (s.mlsGroups row.room).isSome

theorem evolution_same (same : t.deliveryIntents = s.deliveryIntents) :
    Evolution e known fresh s t some [] := by
  refine ⟨?_, fun _ _ => .kept, fun _ _ _ _ _ _ changed => absurd rfl changed, nofun⟩
  rw [same, List.append_nil, List.filterMap_some]

theorem evolution_rewrite (chosen : IntentRow → Bool) (change : IntentRow → IntentRow)
    (same : t.deliveryIntents = s.deliveryIntents.map fun row => if chosen row then change row else row)
    (changed : ∀ row ∈ s.deliveryIntents, chosen row = true →
      Evolves e known fresh s t row (some (change row)))
    (once : ∀ row ∈ s.deliveryIntents, ∀ other ∈ s.deliveryIntents, row.attempt = none →
      other.attempt = none → chosen row = true → chosen other = true → row = other) :
    Evolution e known fresh s t (fun row => some (if chosen row then change row else row)) [] := by
  have selected : ∀ row, some (if chosen row then change row else row) ≠ some row →
      chosen row = true := by
    intro row differs
    by_contra unchosen
    exact differs (by rw [if_neg unchosen])
  refine ⟨?_, fun row present => ?_, fun row present other listed idle still left right =>
    once row present other listed idle still (selected row left) (selected other right), nofun⟩
  · rw [same, List.append_nil, ← List.filterMap_eq_map]
    rfl
  · split
    · rename_i selected
      exact changed row present selected
    · exact .kept

theorem evolution_delete (id : MessageId) (same : t.deliveryIntents = (s.deleteIntents id).deliveryIntents)
    (gone : ∀ row ∈ s.deliveryIntents, row.attempt = some id → Evolves e known fresh s t row none) :
    Evolution e known fresh s t (Option.guard fun row => decide (row.attempt ≠ some id)) [] := by
  refine ⟨?_, fun row present => ?_, fun row _ _ _ idle _ changed => ?_, nofun⟩
  · rw [same, List.append_nil, List.filterMap_eq_filter]
    rfl
  · by_cases waiting : row.attempt = some id
    · rw [Option.guard, if_neg (by simp [waiting])]
      exact gone row present waiting
    · rw [Option.guard, if_pos (decide_eq_true waiting)]
      exact .kept
  · refine absurd ?_ changed
    rw [Option.guard, if_pos (by simp [idle])]

theorem evolution_completes {id : MessageId} {request : Request} {response : Response}
    (carries : Carries s id request) (answer : known (id, request) response)
    (completes : Completes e s id request response t) :
    ∃ next, Evolution e known fresh s t next [] := by
  have removed : (∀ operation, response ≠ .appendAccepted ⟨id, e.user, operation⟩) →
      ∀ request, ¬Carries t id request := by
    intro other request held
    rcases outbox_of_completes completes with left | ⟨-, operation, -, accepted⟩
    · exact (carries_removeOutbox.mp ((Carries.congr left).mp held)).1 rfl
    · exact other operation accepted
  cases completes with
  | create founds named =>
    rw [creates_rest founds named]
    exact ⟨_, evolution_same rfl⟩
  | close _ => exact ⟨_, evolution_same rfl⟩
  | @reserve recipient package =>
    refine ⟨_, evolution_rewrite (Store.reservedBy id recipient)
      (fun row => { row with package := some package, attempt := none }) rfl ?_ ?_⟩
    · intro row present selected
      obtain ⟨waiting, target⟩ := of_decide_eq_true selected
      exact .reserved waiting target answer (removed nofun)
    · intro row _ _ _ idle _ selected
      rw [(of_decide_eq_true selected).1] at idle
      cases idle
  | accept stores =>
    obtain ⟨_, -, -, -, rfl⟩ := stores_cases stores
    exact ⟨_, evolution_same rfl⟩
  | @conflict operation head u moved forgets =>
    refine ⟨_, evolution_rewrite (fun row => decide (row.attempt = some id))
      (fun row => { row with attempt := none }) ?_ ?_ ?_⟩
    · change u.deliveryIntents.map _ = _
      rw [(frame_forgets forgets).intents]
      simp only [decide_eq_true_eq]
    · intro row present selected
      exact .conflicted (of_decide_eq_true selected) answer moved (removed nofun)
    · intro row _ _ _ idle _ selected
      rw [of_decide_eq_true selected] at idle
      cases idle
  | @refuse _ reason u lasting forgets =>
    refine ⟨_, evolution_delete id ?_ fun row present waiting => ?_⟩
    · change u.deliveryIntents.filter _ = s.deliveryIntents.filter _
      rw [(frame_forgets forgets).intents]
    · exact .refused waiting carries answer lasting (removed nofun)

theorem evolution_settles (linked : Linked s) {event : Event} (ready : AtCursor s event)
    (settles : Settles e s event t) : ∃ next, Evolution e known fresh s t next [] := by
  cases settles with
  | apply applies finishes =>
    obtain ⟨-, kept, -⟩ := finishes_tables finishes
    cases applies with
    | @own next mine attempt merges =>
      refine ⟨_, evolution_delete event.id ?_ fun row present waiting => ?_⟩
      · rw [kept]
        change next.deliveryIntents.filter _ = s.deliveryIntents.filter _
        rw [(merges_own merges).1.intents]
      · refine .applied waiting mine ready (linked.carries_of_entry attempt) fun operation held => ?_
        rcases (journals_carries finishes.2).mp held with kept | ⟨-, receipt⟩
        · exact (carries_removeOutbox.mp ((Carries.congr rfl).mp kept)).1 rfl
        · cases receipt
    | message _ processes =>
      refine ⟨_, evolution_same (kept.trans ?_)⟩
      exact ((frame_processes processes).trans frame_recordPlaintext).intents
    | commit _ processes =>
      exact ⟨_, evolution_same (kept.trans (frame_processes processes).intents)⟩
  | block _ => exact ⟨_, evolution_same rfl⟩
  | reject _ _ finishes => exact ⟨_, evolution_same (finishes_tables finishes).2.1⟩

/-- What one durable change does to the intents. -/
theorem intents_evolve (linked : Linked s) (commits : Commits e asked known fresh s t) :
    ∃ next new, Evolution e known fresh s t next new := by
  cases commits with
  | contact _ _ => exact ⟨_, _, evolution_same frame_insertContact.intents⟩
  | command _ _ _ journals => exact ⟨_, _, evolution_same (by rw [journals_rest journals])⟩
  | @intent id room target plaintext _ new group inserted =>
    obtain ⟨-, rfl⟩ := insertIntent_rest inserted
    refine ⟨some, [⟨id, room, target, plaintext, none, none⟩], ?_, fun _ _ => .kept,
      fun _ _ _ _ _ _ changed => absurd rfl changed, ?_⟩
    · rw [List.filterMap_some]
    · exact List.forall_mem_singleton.mpr ⟨new, rfl, rfl, group⟩
  | name named => exact ⟨_, _, evolution_same (frame_upsertRoom named).intents⟩
  | complete entry answer completes =>
    have handled : ∃ next, Evolution e known fresh s t next [] :=
      evolution_completes (linked.carries_of_entry entry) answer completes
    obtain ⟨next, evolution⟩ := handled
    exact ⟨next, _, evolution⟩
  | receive _ _ _ _ _ _ stores =>
    obtain ⟨_, -, -, -, rfl⟩ := stores_cases stores
    exact ⟨_, _, evolution_same rfl⟩
  | @attempt row id request u v planned idle new group clear builds journals =>
    refine ⟨_, _, evolution_rewrite (fun found => decide (found.id = row.id))
      (fun found => { found with attempt := some id }) ?_ ?_ ?_⟩
    · change v.deliveryIntents.map _ = _
      rw [journals_rest journals, (frame_builds builds).intents]
      simp only [decide_eq_true_eq]
    · intro found present selected
      obtain rfl := List.inj_on_of_nodup_map linked.intents present planned
        (of_decide_eq_true selected)
      refine .attempted idle new group clear builds ((Carries.congr rfl).mpr ?_)
      exact (journals_carries journals).mpr (.inr ⟨rfl, rfl⟩)
    · intro found present other listed _ _ selected chosen
      exact List.inj_on_of_nodup_map linked.intents present listed
        ((of_decide_eq_true selected).trans (of_decide_eq_true chosen).symm)
  | welcomes _ _ _ => exact ⟨_, _, evolution_same rfl⟩
  | suspend _ _ => exact ⟨_, _, evolution_same rfl⟩
  | join _ _ joins =>
    obtain ⟨u, w, -, -, placed, journals⟩ := joins_rest joins
    refine ⟨_, _, evolution_same ?_⟩
    rw [journals_rest journals, placed]
  | settle ready settles =>
    have settled : ∃ next, Evolution e known fresh s t next [] :=
      evolution_settles linked ready settles
    obtain ⟨next, evolution⟩ := settled
    exact ⟨next, _, evolution⟩

theorem Evolves.same {row after : IntentRow} (evolves : Evolves e known fresh s t row (some after)) :
    after.id = row.id ∧ after.room = row.room ∧ after.target = row.target ∧
      after.plaintext = row.plaintext := by
  cases evolves
  all_goals exact ⟨rfl, rfl, rfl, rfl⟩

variable {next : IntentRow → Option IntentRow} {new : List IntentRow}

theorem Evolution.origin (evolution : Evolution e known fresh s t next new) {row : IntentRow}
    (planned : row ∈ t.deliveryIntents) :
    (∃ old ∈ s.deliveryIntents, next old = some row ∧ Evolves e known fresh s t old (some row)) ∨
      row ∈ new := by
  rw [evolution.intents] at planned
  rcases List.mem_append.mp planned with continued | added
  · obtain ⟨old, held, becomes⟩ := List.mem_filterMap.mp continued
    have evolves := evolution.evolves old held
    rw [becomes] at evolves
    exact .inl ⟨old, held, becomes, evolves⟩
  · exact .inr added

theorem attempt_origin
    (evolution : Evolution e known fresh s t next new) {row : IntentRow} {id : MessageId}
    (planned : row ∈ t.deliveryIntents) (waiting : row.attempt = some id) :
    row ∈ s.deliveryIntents ∨ fresh id ∧ ∃ old ∈ s.deliveryIntents, old.attempt = none ∧
      next old ≠ some old ∧ row = { old with attempt := some id } := by
  rcases evolution.origin planned with ⟨old, held, becomes, evolves⟩ | added
  · cases evolves with
    | kept => exact .inl held
    | @attempted named _ _ idle drawn =>
      obtain rfl := Option.some.inj waiting
      refine .inr ⟨drawn, old, held, idle, fun same => ?_, rfl⟩
      rw [becomes] at same
      have still := congrArg IntentRow.attempt (Option.some.inj same)
      rw [idle] at still
      cases still
    | reserved => cases waiting
    | conflicted => cases waiting
  · rw [(evolution.fresh row added).2.1] at waiting
    cases waiting

section Removal

variable {row : IntentRow}

theorem completes_removed {id : MessageId} {request : Request} {response : Response}
    (completes : Completes e s id request response t) (planned : row ∈ s.deliveryIntents)
    (gone : ∀ kept ∈ t.deliveryIntents, kept.id ≠ row.id) :
    row.attempt = some id ∧ ∃ reason, response = .rejected reason ∧ isPassing reason = false := by
  have stays : t.deliveryIntents.map IntentRow.id = s.deliveryIntents.map IntentRow.id → False := by
    intro same
    have listed : row.id ∈ t.deliveryIntents.map IntentRow.id := by
      rw [same]
      exact List.mem_map_of_mem planned
    obtain ⟨kept, present, named⟩ := List.mem_map.mp listed
    exact gone kept present named
  cases completes with
  | create founds named =>
    rw [creates_rest founds named] at stays
    exact (stays rfl).elim
  | close _ => exact (stays rfl).elim
  | reserve _ _ _ _ =>
    refine (stays ?_).elim
    change (s.deliveryIntents.map _).map _ = _
    rw [List.map_map]
    refine List.map_congr_left fun found _ => ?_
    simp only [Function.comp_apply]
    split <;> rfl
  | accept stores =>
    obtain ⟨_, -, -, -, rfl⟩ := stores_cases stores
    exact (stays rfl).elim
  | @conflict operation head u moved forgets =>
    refine (stays ?_).elim
    change (u.deliveryIntents.map _).map _ = _
    rw [(frame_forgets forgets).intents, List.map_map]
    refine List.map_congr_left fun found _ => ?_
    simp only [Function.comp_apply]
    split <;> rfl
  | @refuse _ reason u lasting forgets =>
    refine ⟨?_, reason, rfl, lasting⟩
    by_contra other
    refine gone row ?_ rfl
    change row ∈ u.deliveryIntents.filter _
    rw [(frame_forgets forgets).intents]
    exact List.mem_filter.mpr ⟨planned, decide_eq_true other⟩

theorem settles_removed {event : Event} (settles : Settles e s event t)
    (planned : row ∈ s.deliveryIntents) (gone : ∀ kept ∈ t.deliveryIntents, kept.id ≠ row.id) :
    event.sender = e.user ∧ row.attempt = some event.id := by
  have left : row ∉ t.deliveryIntents := fun kept => gone row kept rfl
  cases settles with
  | apply applies finishes =>
    rw [(finishes_tables finishes).2.1] at left
    cases applies with
    | @own next mine attempt merges =>
      refine ⟨mine, ?_⟩
      by_contra other
      refine left ?_
      change row ∈ next.deliveryIntents.filter _
      rw [(merges_own merges).1.intents]
      exact List.mem_filter.mpr ⟨planned, decide_eq_true other⟩
    | message _ processes =>
      refine absurd ?_ left
      rw [((frame_processes processes).trans frame_recordPlaintext).intents]
      exact planned
    | commit _ processes =>
      refine absurd ?_ left
      rw [(frame_processes processes).intents]
      exact planned
  | block _ => exact absurd planned left
  | reject _ _ finishes =>
    rw [(finishes_tables finishes).2.1] at left
    exact absurd planned left

theorem commits_removed (commits : Commits e asked known fresh s t) (planned : row ∈ s.deliveryIntents)
    (gone : ∀ kept ∈ t.deliveryIntents, kept.id ≠ row.id) :
    (∃ event, AtCursor s event ∧ Settles e s event t) ∨ ∃ id request response,
      Entry s id request ∧ known (id, request) response ∧ Completes e s id request response t := by
  have stays : s.deliveryIntents.map IntentRow.id ⊆ t.deliveryIntents.map IntentRow.id → False := by
    intro subset
    obtain ⟨kept, present, named⟩ := List.mem_map.mp (subset (List.mem_map_of_mem planned))
    exact gone kept present named
  have same : t.deliveryIntents = s.deliveryIntents → False := fun equal => stays (by rw [equal]; simp)
  cases commits with
  | complete entry answer completes => exact .inr ⟨_, _, _, entry, answer, completes⟩
  | settle ready settles => exact .inl ⟨_, ready, settles⟩
  | contact _ _ => exact (same frame_insertContact.intents).elim
  | command _ _ _ journals => exact (same (by rw [journals_rest journals])).elim
  | intent _ _ inserted =>
    obtain ⟨-, rfl⟩ := insertIntent_rest inserted
    refine (stays ?_).elim
    change _ ⊆ (s.deliveryIntents ++ _).map _
    rw [List.map_append]
    exact List.subset_append_left _ _
  | name named => exact (same (frame_upsertRoom named).intents).elim
  | receive _ _ _ _ _ _ stores =>
    obtain ⟨_, -, -, -, rfl⟩ := stores_cases stores
    exact (same rfl).elim
  | @attempt _ _ _ u v _ _ _ _ _ builds journals =>
    refine (stays ?_).elim
    change _ ⊆ (v.deliveryIntents.map _).map _
    rw [journals_rest journals, (frame_builds builds).intents, List.map_map]
    intro id listed
    obtain ⟨found, present, rfl⟩ := List.mem_map.mp listed
    refine List.mem_map.mpr ⟨found, present, ?_⟩
    simp only [Function.comp_apply]
    split <;> rfl
  | welcomes _ _ _ => exact (same rfl).elim
  | suspend _ _ => exact (same rfl).elim
  | join _ _ joins =>
    obtain ⟨u, w, -, -, placed, journals⟩ := joins_rest joins
    exact (same (by rw [journals_rest journals, placed])).elim

end Removal

end Grotto.Client.Intents
