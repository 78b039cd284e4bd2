/- GID: Grotto/Relay/Executions
   digest: The executed calls of a run, one for each journaled request. -/

import Grotto.Relay.Invariant
import Mathlib.Data.List.Induction

set_option autoImplicit false

namespace Grotto.Relay.Executions

open Protocol.Records Protocol.Wire Protocol.Transcripts
open Protocol.Sizes
open Storage Deliver Steps Invariant

def executed (sha256 : Hash) (db : Db) (c : Call) : Option Response :=
  if (db.savedRequest c.user c.id).isNone ∧
      ((c.after sha256 db).savedRequest c.user c.id).isSome then
    (c.answer sha256 db).toOption
  else none

/-- The executed calls of a sequence, with their answers and in their order. -/
def executions (sha256 : Hash) : Db → List Call → List (Call × Response)
  | _, [] => []
  | db, c :: calls =>
    ((executed sha256 db c).map (c, ·)).toList ++ executions sha256 (c.after sha256 db) calls

variable {sha256 : Hash} {db : Db}

theorem executed_cases (sha256 : Hash) (db : Db) (c : Call) :
    (executed sha256 db c = none ∧ c.after sha256 db = db) ∨
      ∃ response, executed sha256 db c = some response ∧ c.answer sha256 db = .ok response ∧
        Executes sha256 c.here db c.user c.id c.request response (c.after sha256 db) := by
  rcases deliver_changes sha256 c.here db c.user c.id c.request with
    same | ⟨response, answer, executes⟩
  · refine .inl ⟨if_neg ?_, same⟩
    rintro ⟨free, taken⟩
    change c.after sha256 db = db at same
    rw [same, Option.isSome_iff_ne_none] at taken
    exact taken (Option.isNone_iff_eq_none.mp free)
  · refine .inr ⟨response, ?_, answer, executes⟩
    obtain ⟨wire, bytes, next, -, -, -, final⟩ := executes.charged
    have found : ((c.after sha256 db).savedRequest c.user c.id).isSome := by
      change ((deliver sha256 c.here db c.user c.id c.request).2.savedRequest c.user c.id).isSome
      rw [final]
      unfold Db.savedRequest
      rw [List.find?_isSome]
      exact ⟨_, List.mem_append_right _ (List.mem_singleton_self _), decide_eq_true ⟨rfl, rfl⟩⟩
    have free : (db.savedRequest c.user c.id).isNone := Option.isNone_iff_eq_none.mpr executes.unused
    unfold executed
    rw [if_pos ⟨free, found⟩]
    change (deliver sha256 c.here db c.user c.id c.request).1.toOption = some response
    rw [answer]
    rfl

theorem executions_concat (calls : List Call) (c : Call) :
    executions sha256 db (calls ++ [c]) = executions sha256 db calls ++
      ((executed sha256 (runCalls sha256 db calls) c).map (c, ·)).toList := by
  induction calls generalizing db with
  | nil =>
    rw [List.nil_append, executions, executions, executions, List.append_nil, List.nil_append]
    rfl
  | cons first calls ih =>
    rw [List.cons_append, executions, executions, ih, List.append_assoc]
    rfl

theorem history_concat (calls : List Call) (c : Call) :
    history sha256 db (calls ++ [c]) = history sha256 db calls ++
      [(c, c.answer sha256 (runCalls sha256 db calls))] := by
  induction calls generalizing db with
  | nil => rfl
  | cons first calls ih =>
    rw [List.cons_append, history, history, ih]
    rfl

theorem executions_induction {motive : List (Call × Response) → Db → Prop} (calls : List Call)
    (start : motive [] Db.empty)
    (step : ∀ done db c response, c ∈ calls → motive done db → Valid sha256 db →
      Executes sha256 c.here db c.user c.id c.request response (c.after sha256 db) →
      motive (done ++ [(c, response)]) (c.after sha256 db)) :
    motive (executions sha256 Db.empty calls) (runCalls sha256 Db.empty calls) := by
  induction calls using List.reverseRecOn with
  | nil => exact start
  | append_singleton calls c ih =>
    have before := ih fun done db d response listed =>
      step done db d response (List.mem_append_left _ listed)
    rw [executions_concat, runCalls_concat]
    rcases executed_cases sha256 (runCalls sha256 Db.empty calls) c with
      ⟨skipped, same⟩ | ⟨response, ran, -, executes⟩
    · rw [skipped, same, Option.map_none, Option.toList_none, List.append_nil]
      exact before
    · rw [ran]
      exact step _ _ c response (List.mem_append_right _ (List.mem_singleton_self c)) before
        ((Valid.empty sha256).runCalls calls) executes

structure Journaled (sha256 : Hash) (execution : Call × Response) (row : RequestRow) : Prop where
  user : row.userId = execution.1.user
  id : row.requestId = execution.1.id
  hash : payloadHash sha256 execution.1.request = .ok row.hash
  response : decodeMessage Response row.response = .ok execution.2

theorem journaled_executions (sha256 : Hash) (calls : List Call) :
    List.Forall₂ (Journaled sha256) (executions sha256 Db.empty calls)
      (runCalls sha256 Db.empty calls).deliveryRequests := by
  refine executions_induction (motive := fun done db =>
    List.Forall₂ (Journaled sha256) done db.deliveryRequests) calls List.Forall₂.nil ?_
  intro done db c response _ before valid executes
  obtain ⟨wire, bytes, next, encoded, kept, ran, final⟩ := executes.charged
  have within := Writes.within valid.toTables (execute_writes ran) executes.durable
  rw [final]
  refine List.rel_append before (List.Forall₂.cons ⟨rfl, rfl, ?_, ?_⟩ List.Forall₂.nil)
  · unfold payloadHash
    rw [encoded]
    rfl
  · exact decodeMessage_encodeMessage kept ((bounded_response response).mpr within)

theorem execution_of_row {calls : List Call} {row : RequestRow}
    (listed : row ∈ (runCalls sha256 Db.empty calls).deliveryRequests) :
    ∃ execution ∈ executions sha256 Db.empty calls, Journaled sha256 execution row := by
  have rows := journaled_executions sha256 calls
  generalize executions sha256 Db.empty calls = done at rows ⊢
  generalize (runCalls sha256 Db.empty calls).deliveryRequests = requests at rows listed
  induction rows with
  | nil => cases listed
  | @cons execution first _ _ journaled _ ih =>
    rcases List.mem_cons.mp listed with rfl | later
    · exact ⟨execution, List.mem_cons_self, journaled⟩
    · obtain ⟨found, ran, holds⟩ := ih later
      exact ⟨found, List.mem_cons_of_mem _ ran, holds⟩

theorem executions_nodup (sha256 : Hash) (calls : List Call) :
    ((executions sha256 Db.empty calls).map fun execution =>
      (execution.1.user, execution.1.id)).Nodup := by
  have keys := ((Valid.empty sha256).runCalls calls).journal.keys
  have rows := journaled_executions sha256 calls
  have same : (executions sha256 Db.empty calls).map
      (fun execution => (execution.1.user, execution.1.id)) =
      (runCalls sha256 Db.empty calls).deliveryRequests.map fun row => (row.userId, row.requestId) := by
    generalize executions sha256 Db.empty calls = done at rows
    generalize (runCalls sha256 Db.empty calls).deliveryRequests = requests at rows
    induction rows with
    | nil => rfl
    | cons journaled _ ih =>
      rw [List.map_cons, List.map_cons, ih, journaled.user, journaled.id]
  rw [same]
  exact keys

theorem execute_read {here : Surroundings} {db next : Db} {user : UserId} {id : MessageId}
    {request : Request} {response : Response} (read : request.isRead = true)
    (done : execute here db user id request = .ok (response, next)) :
    isPage response = true ∨ ∃ reason, response = .rejected reason := by
  cases request with
  | fetchRoomEvents room start =>
    have result := (map_unchanged done).1
    unfold fetchRoomEvents at result
    split at result
    · exact .inr ⟨_, (Except.ok.inj result).symm⟩
    split at result
    · exact .inr ⟨_, (Except.ok.inj result).symm⟩
    simp only [bind, Except.bind] at result
    split at result
    · cases result
    · obtain rfl := Except.ok.inj result
      exact .inl rfl
  | fetchWelcomes start =>
    have result := (map_unchanged done).1
    unfold fetchWelcomes at result
    split at result
    · exact .inr ⟨_, (Except.ok.inj result).symm⟩
    simp only [bind, Except.bind] at result
    split at result
    · cases result
    · obtain rfl := Except.ok.inj result
      exact .inl rfl
  | syncIndex start =>
    obtain ⟨rfl, -⟩ := Prod.mk.inj (Except.ok.inj done)
    exact .inl rfl
  | _ => cases read

/-- An answer other than a page or a refusal is that of an executed call under its identifier. -/
theorem answer_of_execution {calls : List Call} {c : Call} {response : Response}
    (answered : (c, Except.ok response) ∈ history sha256 Db.empty calls)
    (plain : isPage response = false) (granted : ∀ reason, response ≠ .rejected reason) :
    ∃ d, (d, response) ∈ executions sha256 Db.empty calls ∧ d.user = c.user ∧ d.id = c.id := by
  induction calls using List.reverseRecOn with
  | nil => cases answered
  | append_singleton calls last ih =>
    rw [executions_concat]
    rw [history_concat] at answered
    rcases List.mem_append.mp answered with earlier | latest
    · obtain ⟨d, ran, rest⟩ := ih earlier
      exact ⟨d, List.mem_append_left _ ran, rest⟩
    obtain ⟨rfl, answer⟩ := Prod.mk.inj (List.mem_singleton.mp latest)
    have valid := (Valid.empty sha256).runCalls calls
    rcases executed_cases sha256 (runCalls sha256 Db.empty calls) c with
      ⟨-, same⟩ | ⟨given, ran, gives, -⟩
    · have delivers := deliver_delivers sha256 c.here (runCalls sha256 Db.empty calls) c.user c.id
        c.request
      change Delivers _ _ _ _ _ (c.answer sha256 _) (c.after sha256 _) at delivers
      rw [← answer, same] at delivers
      cases delivers with
      | conflicting => exact absurd rfl (granted _)
      | unsettled => exact absurd rfl (granted _)
      | replayed encoded saved hash decoded =>
        obtain ⟨listed, mine, named⟩ := savedRequest_some saved
        obtain ⟨⟨d, given⟩, ran, journaled⟩ := execution_of_row listed
        obtain rfl := Except.ok.inj (decoded.symm.trans journaled.response)
        exact ⟨d, List.mem_append_left _ ran, journaled.user.symm.trans mine,
          journaled.id.symm.trans named⟩
      | answered read _ executed =>
        rcases execute_read read executed with page | ⟨reason, refused⟩
        · rw [plain] at page
          cases page
        · exact absurd refused (granted reason)
      | settled journals =>
        -- A journaled call has made the journal longer.
        obtain ⟨wire, bytes, next, sender, room, -, -, writes, final⟩ := journals.witness
        have longer := congrArg (fun d : Db => d.deliveryRequests.length) final
        simp [writes.requests_eq] at longer
    · obtain rfl := Except.ok.inj (answer.trans gives)
      rw [ran]
      exact ⟨c, List.mem_append_right _ (List.mem_singleton_self _), rfl, rfl⟩

end Grotto.Relay.Executions
