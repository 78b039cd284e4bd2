/- GID: Grotto/Relay/Packages
   digest: Every published key package is handed out once or still waits in its owner's pool. -/

import Grotto.Relay.Executions

set_option autoImplicit false

namespace Grotto.Relay.Packages

open Format.Varint (Bytes)
open Protocol.Records Protocol.Transcripts
open Storage Deliver Steps
open Executions

def publishedBy (owner : UserId) : Call × Response → List Bytes
  | (c, .keyPackagesPublished _) =>
    match c.request with
    | .publishKeyPackages packages => if c.user = owner then packages else []
    | _ => []
  | _ => []

def handedBy (owner : UserId) : Call × Response → List Bytes
  | (_, .keyPackage recipient package) => if recipient = owner then [package] else []
  | _ => []

def pool (owner : UserId) (db : Db) : List Bytes :=
  (db.keyPackages.filter fun row => row.userId = owner).map KeyPackageRow.keyPackage

section Pools

variable {db next : Db} {user : UserId} {id : MessageId} {request : Request} {response : Response}
variable (owner : UserId)

theorem pool_published (packages : List Bytes) :
    (((db.keyPackages ++ packages.map (KeyPackageRow.mk user)).filter fun row =>
      row.userId = owner).map KeyPackageRow.keyPackage) =
      pool owner db ++ if user = owner then packages else [] := by
  rw [List.filter_append, List.map_append]
  congr 1
  by_cases mine : user = owner
  · simp [mine, List.filter_map, Function.comp_def]
  · simp [mine, List.filter_map, Function.comp_def]

theorem filter_eraseP {rows : List KeyPackageRow} {recipient : UserId} {row : KeyPackageRow}
    (found : rows.find? (fun row => row.userId = recipient) = some row) :
    (rows.filter fun row => row.userId = owner) =
      (if recipient = owner then [row] else []) ++
        (rows.eraseP fun row => row.userId = recipient).filter fun row => row.userId = owner := by
  induction rows with
  | nil => cases found
  | cons first rows ih =>
    by_cases here : first.userId = recipient
    · have same : first = row := by simpa [here] using found
      subst same
      by_cases mine : recipient = owner
      · simp [here, mine]
      · simp [here, mine]
    · have later : rows.find? (fun row => row.userId = recipient) = some row := by
        simpa [here] using found
      rw [List.eraseP_cons_of_neg (by simpa using here), List.filter_cons, List.filter_cons, ih later]
      by_cases mine : first.userId = owner
      · have apart : recipient ≠ owner := fun same => here (mine.trans same.symm)
        simp [mine, apart]
      · simp [mine]

theorem pool_after (writes : Writes db user id request response next)
    (durable : request.isRead = false) (here : Surroundings) :
    pool owner db ++ publishedBy owner (⟨here, user, id, request⟩, response) =
      handedBy owner (⟨here, user, id, request⟩, response) ++ pool owner next := by
  have same : ∀ {next : Db}, next.keyPackages = db.keyPackages →
      pool owner db ++ [] = [] ++ pool owner next := by
    intro next kept
    unfold pool
    rw [kept, List.append_nil, List.nil_append]
  cases writes with
  | read read =>
    rw [durable] at read
    cases read
  | packages sized few => exact (pool_published owner _).symm
  | @reserved recipient row time granted found =>
    change pool owner db ++ [] = (if recipient = owner then [row.keyPackage] else []) ++ _
    unfold pool
    rw [filter_eraseP owner found, List.map_append, List.append_nil]
    congr 1
    split <;> rfl
  | room => exact same (subscribe_packages _ _ _)
  | invitation => exact same (subscribe_packages _ _ _)
  | granted => exact same (by split <;> rfl)
  | _ => exact same rfl

theorem publishedBy_other {c : Call} (other : ∀ packages, c.request ≠ .publishKeyPackages packages) :
    publishedBy owner (c, response) = [] := by
  cases response with
  | keyPackagesPublished count =>
    change (match c.request with
      | .publishKeyPackages packages => if c.user = owner then packages else []
      | _ => []) = []
    split
    · rename_i packages publishes
      exact absurd publishes (other packages)
    · rfl
  | _ => rfl

theorem pool_bounded {here : Surroundings} (full : (pool owner db).length ≤ 64)
    (executed : execute here db user id request = .ok (response, next))
    (durable : request.isRead = false) : (pool owner next).length ≤ 64 := by
  have after := congrArg List.length (pool_after owner (execute_writes executed) durable here)
  rw [List.length_append, List.length_append] at after
  cases request with
  | publishKeyPackages packages =>
    change publishKeyPackages db user packages = .ok (response, next) at executed
    unfold publishKeyPackages at executed
    split at executed
    · obtain ⟨rfl, rfl⟩ := Prod.mk.inj (Except.ok.inj executed)
      exact full
    split at executed
    · obtain ⟨rfl, rfl⟩ := Prod.mk.inj (Except.ok.inj executed)
      exact full
    rename_i room
    obtain ⟨rfl, rfl⟩ := Prod.mk.inj (Except.ok.inj executed)
    change (List.map _ _).length ≤ 64
    rw [pool_published, List.length_append]
    unfold pool at full ⊢
    rw [List.length_map] at full ⊢
    split
    · rename_i mine
      subst mine
      omega
    · rw [List.length_nil]
      omega
  | _ =>
    rw [publishedBy_other owner (fun _ => by nofun), List.length_nil] at after
    omega

end Pools

structure Queues (done : List (Call × Response)) (db : Db) : Prop where
  order : ∀ owner, done.flatMap (publishedBy owner) = done.flatMap (handedBy owner) ++ pool owner db
  bounded : ∀ owner, (pool owner db).length ≤ 64

theorem Queues.executes {sha256 : Hash} {done : List (Call × Response)} {db : Db} {c : Call}
    {response : Response} (before : Queues done db)
    (executes : Executes sha256 c.here db c.user c.id c.request response (c.after sha256 db)) :
    Queues (done ++ [(c, response)]) (c.after sha256 db) := by
  obtain ⟨wire, bytes, next, -, -, executed, final⟩ := executes.charged
  have kept : (c.after sha256 db).keyPackages = next.keyPackages := by
    rw [final]
    unfold chargeUsage
    split <;> rfl
  have same : ∀ owner, pool owner (c.after sha256 db) = pool owner next := by
    intro owner
    unfold pool
    rw [kept]
  refine ⟨fun owner => ?_, fun owner => ?_⟩
  · have moved := pool_after owner (execute_writes executed) executes.durable c.here
    rw [List.flatMap_append, List.flatMap_append, List.flatMap_singleton, List.flatMap_singleton,
      before.order, List.append_assoc, List.append_assoc, same]
    exact congrArg _ moved
  · rw [same]
    exact pool_bounded owner (before.bounded owner) executed executes.durable

theorem granted_of_executed {sha256 : Hash} {db : Db} {c : Call} {owner : UserId} {package : Bytes}
    (ran : executed sha256 db c = some (.keyPackage owner package)) :
    db.isGranted owner c.user = true := by
  rcases executed_cases sha256 db c with ⟨skipped, -⟩ | ⟨response, given, -, executes⟩
  · rw [skipped] at ran
    cases ran
  obtain rfl := Option.some.inj (given.symm.trans ran)
  obtain ⟨wire, bytes, next, -, -, done, -⟩ := executes.charged
  have writes := execute_writes done
  have durable := executes.durable
  generalize c.request = request at writes durable
  cases writes with
  | read read =>
    rw [durable] at read
    cases read
  | reserved granted => exact granted

/-- In every state the calls can reach and for every owner: the packages published by executed calls
are those handed out by executed calls, in order, followed by the pool; no identifier of a user is
executed twice, and every package or publication in an answer is that of the execution under its
identifier; pools hold at most 64 packages; and a package was handed out under a grant that stood. -/
theorem key_package_queue (sha256 : Hash) (calls : List Call) :
    (∀ owner, (executions sha256 Db.empty calls).flatMap (publishedBy owner) =
      (executions sha256 Db.empty calls).flatMap (handedBy owner) ++
        pool owner (runCalls sha256 Db.empty calls)) ∧
    ((executions sha256 Db.empty calls).map fun execution =>
      (execution.1.user, execution.1.id)).Nodup ∧
    (∀ c response, (c, Except.ok response) ∈ history sha256 Db.empty calls →
      (∃ owner package, response = .keyPackage owner package) ∨
        (∃ count, response = .keyPackagesPublished count) →
      ∃ d, (d, response) ∈ executions sha256 Db.empty calls ∧ d.user = c.user ∧ d.id = c.id) ∧
    (∀ owner, (pool owner (runCalls sha256 Db.empty calls)).length ≤ 64) ∧
    ∀ before c after owner package, calls = before ++ c :: after →
      executed sha256 (runCalls sha256 Db.empty before) c = some (.keyPackage owner package) →
      (runCalls sha256 Db.empty before).isGranted owner c.user = true := by
  have empty : Queues [] Db.empty := ⟨fun _ => rfl, fun _ => Nat.zero_le _⟩
  have queues : Queues (executions sha256 Db.empty calls) (runCalls sha256 Db.empty calls) :=
    executions_induction (motive := Queues) calls empty
      fun done db c response _ before _ executes => before.executes executes
  refine ⟨queues.order, executions_nodup sha256 calls, fun c response answered kind => ?_,
    queues.bounded, fun before c after owner package _ ran => granted_of_executed ran⟩
  rcases kind with ⟨owner, package, rfl⟩ | ⟨count, rfl⟩
  · exact answer_of_execution answered rfl nofun
  · exact answer_of_execution answered rfl nofun

end Grotto.Relay.Packages
