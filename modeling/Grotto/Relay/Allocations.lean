/- GID: Grotto/Relay/Allocations
   digest: No hour of the clock holds more package allocations than the limits allow, whatever the
   clock does between the calls. -/

import Grotto.Base.Windows
import Grotto.Relay.Executions

set_option autoImplicit false

namespace Grotto.Relay.Allocations

open Format.Postcard (Octets)
open Base.Windows
open Protocol.Records Protocol.Transcripts
open Storage Deliver Steps Invariant
open Executions

/-- The allocations from a recipient's pool, and those of one requester among them. -/
def fromPool (recipient : UserId) (row : AllocationRow) : Bool := decide (row.recipient = recipient)

def byRequester (recipient requester : UserId) (row : AllocationRow) : Bool :=
  decide (row.recipient = recipient) && decide (row.requester = requester)

/-- The allocations that count and carry a time in the hour that ends at `t`. -/
def hourOf (counts : AllocationRow → Bool) (t : Int) (db : Db) : List AllocationRow :=
  window AllocationRow.allocatedAt counts 3600 t db.packageAllocations

section Reserving

variable {here : Surroundings} {db next : Db} {user recipient : UserId} {id : MessageId}
  {request : Request} {response : Response}

theorem recentAllocations_eq : recentAllocations here db recipient =
    recent AllocationRow.allocatedAt (fromPool recipient) 3600 here.selectTime
      db.packageAllocations := by
  unfold recentAllocations recent fromPool
  simp only [Bool.decide_and, gt_iff_lt]

theorem recentAllocations_requester :
    ((recentAllocations here db recipient).filter fun row => row.requester = user) =
      recent AllocationRow.allocatedAt (byRequester recipient user) 3600 here.selectTime
        db.packageAllocations := by
  unfold recentAllocations recent byRequester
  rw [List.filter_filter]
  refine List.filter_congr fun row _ => ?_
  simp only [Bool.decide_and, gt_iff_lt]
  rw [Bool.and_comm, Bool.and_right_comm]

theorem Writes.allocations_eq (writes : Writes db user id request response next)
    (other : ∀ recipient, request ≠ .reserveKeyPackage recipient) :
    next.packageAllocations = db.packageAllocations := by
  cases writes with
  | reserved => exact absurd rfl (other _)
  | room => exact subscribe_packageAllocations _ _ _
  | invitation => exact subscribe_packageAllocations _ _ _
  | granted => split <;> rfl
  | _ => rfl

theorem allocations_after (executed : execute here db user id request = .ok (response, next)) :
    next.packageAllocations = db.packageAllocations ∨ ∃ recipient,
      next.packageAllocations = db.packageAllocations ++ [⟨user, recipient, here.insertTime⟩] ∧
      (recentAllocations here db recipient).length < 16 ∧
      ((recentAllocations here db recipient).filter fun row => row.requester = user).length < 4 := by
  cases request with
  | reserveKeyPackage recipient =>
    change reserveKeyPackage here db user recipient = .ok (response, next) at executed
    unfold reserveKeyPackage reject at executed
    dsimp only at executed
    split at executed
    · obtain ⟨-, rfl⟩ := Prod.mk.inj (Except.ok.inj executed)
      exact .inl rfl
    split at executed
    · obtain ⟨-, rfl⟩ := Prod.mk.inj (Except.ok.inj executed)
      exact .inl rfl
    rename_i below
    push Not at below
    split at executed
    · obtain ⟨-, rfl⟩ := Prod.mk.inj (Except.ok.inj executed)
      exact .inl rfl
    · obtain ⟨-, rfl⟩ := Prod.mk.inj (Except.ok.inj executed)
      exact .inr ⟨recipient, rfl, below⟩
  | _ => exact .inl (Writes.allocations_eq (execute_writes executed) fun _ => by simp)

end Reserving

def Paced (db : Db) : Prop := ∀ recipient t, (hourOf (fromPool recipient) t db).length ≤ 16 ∧
  ∀ requester, (hourOf (byRequester recipient requester) t db).length ≤ 4

theorem Paced.executes {sha256 : Hash} {db : Db} {c : Call} {response : Response}
    (before : Paced db) (steady : c.here.selectTime ≤ c.here.insertTime)
    (executes : Executes sha256 c.here db c.user c.id c.request response (c.after sha256 db)) :
    Paced (c.after sha256 db) := by
  obtain ⟨wire, bytes, next, -, -, executed, final⟩ := executes.charged
  have kept : (c.after sha256 db).packageAllocations = next.packageAllocations := by
    rw [final]
    unfold chargeUsage
    split <;> rfl
  intro recipient t
  unfold hourOf
  rw [kept]
  rcases allocations_after executed with same | ⟨drained, added, total, pair⟩
  · rw [same]
    exact before recipient t
  rw [added]
  refine ⟨window_concat (before recipient t).1 (fun mine => ?_) steady, fun requester =>
    window_concat ((before recipient t).2 requester) (fun mine => ?_) steady⟩
  · obtain rfl : drained = recipient := of_decide_eq_true mine
    rw [← recentAllocations_eq]
    exact total
  obtain ⟨one, two⟩ := Bool.and_eq_true_iff.mp mine
  obtain rfl : drained = recipient := of_decide_eq_true one
  obtain rfl : c.user = requester := of_decide_eq_true two
  rw [← recentAllocations_requester]
  exact pair

/-- In every state the calls can reach, with a clock that may do anything between the calls but does
not step back within one: every hour holds at most 16 allocations from a recipient's pool and at most
4 by one requester. -/
theorem allocation_rates (sha256 : Hash) (calls : List Call)
    (steady : ∀ c ∈ calls, c.here.selectTime ≤ c.here.insertTime)
    (recipient requester : UserId) (t : Int) :
    (hourOf (fromPool recipient) t (runCalls sha256 Db.empty calls)).length ≤ 16 ∧
      (hourOf (byRequester recipient requester) t (runCalls sha256 Db.empty calls)).length ≤ 4 := by
  have paced : Paced (runCalls sha256 Db.empty calls) :=
    executions_induction (motive := fun _ db => Paced db) calls
      (fun _ _ => ⟨Nat.zero_le _, fun _ => Nat.zero_le _⟩)
      fun done db c response listed before _ executes => before.executes (steady c listed) executes
  exact ⟨(paced recipient t).1, (paced recipient t).2 requester⟩

def atTime (now : Int) : Surroundings := { idle with selectTime := now, insertTime := now }

/-- Two packages of `alice`, reserved by `bob` before and after the clock was set back. -/
def sharing : List Call :=
  [⟨idle, alice, ⟨Octets.replicate 16 0x13⟩, .publishKeyPackages [[1], [2]]⟩,
    grantCall,
    ⟨atTime 7200, bob, ⟨Octets.replicate 16 0x14⟩, .reserveKeyPackage alice⟩,
    ⟨atTime 0, bob, ⟨Octets.replicate 16 0x15⟩, .reserveKeyPackage alice⟩]

theorem allocation_rates_sharing :
    (runCalls leadingBytes Db.empty sharing).packageAllocations.map AllocationRow.allocatedAt =
      [7200, 0] ∧
    (hourOf (fromPool alice) 7200 (runCalls leadingBytes Db.empty sharing)).length ≤ 16 ∧
    (hourOf (byRequester alice bob) 7200 (runCalls leadingBytes Db.empty sharing)).length ≤ 4 :=
  ⟨by decide +kernel, allocation_rates leadingBytes sharing (by decide +kernel) alice bob 7200⟩

end Grotto.Relay.Allocations
