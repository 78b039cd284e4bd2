/- GID: Grotto/Relay/Quotas
   digest: The byte ledgers are the sums of what the executed calls were charged. -/

import Grotto.Relay.Executions
import Mathlib.Algebra.BigOperators.Group.List.Basic
import Mathlib.Algebra.Order.Ring.Nat

set_option autoImplicit false

namespace Grotto.Relay.Quotas

open Format.Varint (Bytes)
open Protocol.Records Protocol.Wire Protocol.Transcripts
open Storage Deliver Steps Invariant
open Executions

section Ledger

variable {κ : Type} [DecidableEq κ]

def balance (ledger : List (κ × Nat)) (k : κ) : Nat :=
  ((ledger.find? fun row => row.1 = k).map Prod.snd).getD 0

theorem balance_charge (k other : κ) (bytes : Nat) (ledger : List (κ × Nat)) :
    balance (charge k bytes ledger) other = balance ledger other + if k = other then bytes else 0 := by
  unfold balance
  by_cases same : k = other
  · subst same
    rw [find?_charge, if_pos rfl]
    rfl
  · rw [find?_charge_other same, if_neg same]
    rfl

theorem usage_ok {ledger : List (κ × Nat)} {k : κ} {used : Nat} (read : usage ledger k = .ok used) :
    used = balance ledger k ∧ used ≤ i64Max := by
  unfold usage at read
  unfold balance
  split at read
  · rename_i missing
    obtain rfl := Except.ok.inj read
    rw [missing]
    exact ⟨rfl, Nat.zero_le _⟩
  · rename_i row found
    unfold bindU64 at read
    split at read
    · rename_i bound
      obtain rfl := Except.ok.inj read
      rw [found]
      exact ⟨rfl, bound⟩
    · cases read

end Ledger

variable {request : Request} {here : Surroundings} {user : UserId} {id : MessageId} {sha256 : Hash}

section Charges

variable {response : Response}

def cost (request : Request) : Nat :=
  match encodeMessage request with
  | .ok wire => 3 * wire.length + 16384
  | .error _ => 0

theorem requiredBytes_eq {wire : Bytes} (encoded : encodeMessage request = .ok wire) :
    requiredBytes wire = cost request ∧ cost request < 2 ^ 62 := by
  have fits : wire.length ≤ maxPayload := by
    obtain ⟨fits, rfl⟩ := encodeMessage_ok.mp encoded
    exact fits
  unfold maxPayload at fits
  unfold cost requiredBytes saturatingAdd saturatingMul u64Max
  rw [encoded]
  dsimp only
  omega

theorem exact_of_saturating {used required limit : Nat} (read : used ≤ i64Max)
    (small : required < 2 ^ 62) (within : saturatingAdd used required ≤ limit) : used + required ≤ limit := by
  unfold i64Max at read
  unfold saturatingAdd u64Max at within
  omega

/-- An admitted request leaves both ledgers within their limits. -/
theorem admits_within {db : Db} {wire : Bytes} (encoded : encodeMessage request = .ok wire)
    (admitted : admits here db user request = .ok true) :
    balance db.usageSender user + cost request ≤ here.limits.sender.toNat ∧
      ∀ room, chargeRoom request = some room →
        balance db.usageRoom room + cost request ≤ here.limits.room.toNat := by
  obtain ⟨required, small⟩ := requiredBytes_eq encoded
  have ledgers : ledgersAdmit here db user request (cost request) = .ok true := by
    unfold admits at admitted
    rw [encoded] at admitted
    dsimp only at admitted
    rw [required] at admitted
    split at admitted
    · cases admitted
    split at admitted
    · cases admitted
    split at admitted
    · cases admitted
    cases ledgers : ledgersAdmit here db user request (cost request) with
    | error e =>
      rw [ledgers] at admitted
      cases admitted
    | ok within =>
      rw [ledgers] at admitted
      cases within with
      | true => rfl
      | false => cases admitted
  unfold ledgersAdmit at ledgers
  cases sender : usage db.usageSender user with
  | error e =>
    rw [sender] at ledgers
    cases ledgers
  | ok used =>
    rw [sender] at ledgers
    obtain ⟨rfl, read⟩ := usage_ok sender
    simp only [bind, Except.bind, pure, Except.pure] at ledgers
    split at ledgers
    · cases ledgers
    rename_i within
    refine ⟨exact_of_saturating read small (not_lt.mp within), ?_⟩
    intro room target
    rw [target] at ledgers
    dsimp only at ledgers
    cases charged : usage db.usageRoom room with
    | error e =>
      rw [charged] at ledgers
      cases ledgers
    | ok used =>
      rw [charged] at ledgers
      obtain ⟨rfl, read⟩ := usage_ok charged
      have within := of_decide_eq_true (Except.ok.inj ledgers)
      exact exact_of_saturating read small within

theorem Writes.ledgers_eq {db next : Db} (writes : Writes db user id request response next) :
    next.usageSender = db.usageSender ∧ next.usageRoom = db.usageRoom := by
  cases writes with
  | room => exact ⟨subscribe_usageSender _ _ _, subscribe_usageRoom _ _ _⟩
  | invitation => exact ⟨subscribe_usageSender _ _ _, subscribe_usageRoom _ _ _⟩
  | granted => split <;> exact ⟨rfl, rfl⟩
  | _ => exact ⟨rfl, rfl⟩

/-- The calls charged to a user: all they had executed but receipts. -/
def chargesSender (user : UserId) (execution : Call × Response) : Bool :=
  decide (execution.1.user = user) && !execution.1.request.isAcknowledge

def chargesRoom (room : RoomId) (execution : Call × Response) : Bool :=
  decide (chargeRoom execution.1.request = some room)

def charges (counts : Call × Response → Bool) (done : List (Call × Response)) : Nat :=
  ((done.filter counts).map fun execution => cost execution.1.request).sum

theorem charges_concat (counts : Call × Response → Bool) (done : List (Call × Response))
    (execution : Call × Response) : charges counts (done ++ [execution]) =
      charges counts done + if counts execution then cost execution.1.request else 0 := by
  unfold charges
  rw [List.filter_append, List.map_append, List.sum_append]
  by_cases counted : counts execution = true
  · simp [counted]
  · simp [counted]

/-- The ledgers sum up the executed calls and stay within the limits. -/
structure Summarizes (limits : StorageLimits) (done : List (Call × Response)) (db : Db) : Prop where
  sender : ∀ user, balance db.usageSender user = charges (chargesSender user) done
  room : ∀ room, balance db.usageRoom room = charges (chargesRoom room) done
  senderWithin : ∀ user, balance db.usageSender user ≤ limits.sender.toNat
  roomWithin : ∀ room, balance db.usageRoom room ≤ limits.room.toNat

variable {limits : StorageLimits} {done : List (Call × Response)} {db : Db} {c : Call}

theorem ledgers_after {final : Db}
    (executes : Executes sha256 here db user id request response final) :
    (∀ other, balance final.usageSender other = balance db.usageSender other +
      if user = other ∧ request.isAcknowledge = false then cost request else 0) ∧
    ∀ room, balance final.usageRoom room = balance db.usageRoom room +
      if chargeRoom request = some room then cost request else 0 := by
  obtain ⟨wire, bytes, next, encoded, -, executed, rfl⟩ := executes.charged
  obtain ⟨sender, room⟩ := Writes.ledgers_eq (execute_writes executed)
  obtain ⟨required, -⟩ := requiredBytes_eq encoded
  unfold chargeUsage
  rw [sender, room, required]
  cases receipt : request.isAcknowledge with
  | true =>
    have elsewhere : chargeRoom request = none := by
      cases request <;> first | rfl | cases receipt
    simp [elsewhere, sender, room]
  | false =>
    refine ⟨fun other => ?_, fun place => ?_⟩
    · simp [balance_charge]
    · cases target : chargeRoom request with
      | none => simp
      | some named => simp [balance_charge]

theorem within_after {final : Db}
    (executes : Executes sha256 here db user id request response final)
    (charged : request.isAcknowledge = false) :
    balance db.usageSender user + cost request ≤ here.limits.sender.toNat ∧
      ∀ room, chargeRoom request = some room →
        balance db.usageRoom room + cost request ≤ here.limits.room.toNat := by
  obtain ⟨wire, bytes, next, encoded, -⟩ := executes.charged
  have admitted := executes.admitted
  unfold admission at admitted
  rw [executes.durable, charged] at admitted
  exact admits_within encoded admitted

theorem Summarizes.executes (before : Summarizes limits done db) (fixed : c.here.limits = limits)
    (executes : Executes sha256 c.here db c.user c.id c.request response (c.after sha256 db)) :
    Summarizes limits (done ++ [(c, response)]) (c.after sha256 db) := by
  obtain ⟨sender, room⟩ := ledgers_after executes
  refine ⟨fun user => ?_, fun place => ?_, fun user => ?_, fun place => ?_⟩
  · rw [sender, before.sender, charges_concat]
    simp [chargesSender]
  · rw [room, before.room, charges_concat]
    simp [chargesRoom]
  · rw [sender]
    split
    · rename_i mine
      obtain ⟨rfl, charged⟩ := mine
      rw [← fixed]
      exact (within_after executes charged).1
    · exact before.senderWithin user
  · rw [room]
    split
    · rename_i target
      have charged : c.request.isAcknowledge = false := by
        cases kind : c.request <;> first | rfl | (rw [kind] at target; cases target)
      rw [← fixed]
      exact (within_after executes charged).2 place target
    · exact before.roomWithin place

inductive Free (sha256 : Hash) (here : Surroundings) (db : Db) (user : UserId) (id : MessageId)
    (request : Request) : Prop
  | replay (saved : (db.savedRequest user id).isSome = true)
  | read (read : request.isRead = true)
  | receipt (receipt : request.isAcknowledge = true)
  | transient {response : Response} (transient : isTransient response = true)
      (answer : (deliver sha256 here db user id request).1 = .ok response)
  | failed {e : StorageError} (answer : (deliver sha256 here db user id request).1 = .error e)

theorem Free.unchanged (free : Free sha256 here db user id request) :
    (∀ other, balance (deliver sha256 here db user id request).2.usageSender other =
      balance db.usageSender other) ∧
    ∀ room, balance (deliver sha256 here db user id request).2.usageRoom room =
      balance db.usageRoom room := by
  rcases deliver_changes sha256 here db user id request with same | ⟨response, answer, executes⟩
  · rw [same]
    exact ⟨fun _ => rfl, fun _ => rfl⟩
  cases free with
  | replay saved =>
    rw [executes.unused] at saved
    cases saved
  | read read =>
    rw [executes.durable] at read
    cases read
  | receipt receipt =>
    obtain ⟨sender, room⟩ := ledgers_after executes
    have elsewhere : chargeRoom request = none := by
      cases request <;> first | rfl | cases receipt
    exact ⟨fun other => by simp [sender, receipt], fun place => by simp [room, elsewhere]⟩
  | transient transient other =>
    obtain rfl := Except.ok.inj (answer.symm.trans other)
    rw [executes.settles.1] at transient
    cases transient
  | failed other =>
    rw [answer] at other
    cases other

end Charges

/-- In every state the calls can reach under fixed limits: the journal has one row for each executed
call; a user's ledger is the sum of the costs of the user's executed calls but receipts, a room's
that of the executed appends naming it; both are within their limits; and replays, reads, receipts,
transient answers and failures leave them as they are. -/
theorem quota_ledgers (sha256 : Hash) (limits : StorageLimits) (calls : List Call)
    (fixed : ∀ c ∈ calls, c.here.limits = limits) :
    List.Forall₂ (Journaled sha256) (executions sha256 Db.empty calls)
      (runCalls sha256 Db.empty calls).deliveryRequests ∧
    (∀ user, balance (runCalls sha256 Db.empty calls).usageSender user =
        charges (chargesSender user) (executions sha256 Db.empty calls) ∧
      balance (runCalls sha256 Db.empty calls).usageSender user ≤ limits.sender.toNat) ∧
    (∀ room, balance (runCalls sha256 Db.empty calls).usageRoom room =
        charges (chargesRoom room) (executions sha256 Db.empty calls) ∧
      balance (runCalls sha256 Db.empty calls).usageRoom room ≤ limits.room.toNat) ∧
    ∀ here user id request, Free sha256 here (runCalls sha256 Db.empty calls) user id request →
      (∀ other, balance
          (deliver sha256 here (runCalls sha256 Db.empty calls) user id request).2.usageSender other =
        balance (runCalls sha256 Db.empty calls).usageSender other) ∧
      ∀ room, balance
          (deliver sha256 here (runCalls sha256 Db.empty calls) user id request).2.usageRoom room =
        balance (runCalls sha256 Db.empty calls).usageRoom room := by
  have empty : Summarizes limits [] Db.empty :=
    ⟨fun _ => rfl, fun _ => rfl, fun _ => Nat.zero_le _, fun _ => Nat.zero_le _⟩
  have sums : Summarizes limits (executions sha256 Db.empty calls) (runCalls sha256 Db.empty calls) :=
    executions_induction (motive := Summarizes limits) calls empty
      fun done db c response listed before _ executes => before.executes (fixed c listed) executes
  exact ⟨journaled_executions sha256 calls, fun user => ⟨sums.sender user, sums.senderWithin user⟩,
    fun room => ⟨sums.room room, sums.roomWithin room⟩, fun _ _ _ _ free => free.unchanged⟩

theorem quota_ledgers_granting :
    balance (runCalls leadingBytes Db.empty [grantCall, revokeCall]).usageSender alice =
      charges (chargesSender alice) (executions leadingBytes Db.empty [grantCall, revokeCall]) ∧
    charges (chargesSender alice) (executions leadingBytes Db.empty [grantCall, revokeCall]) =
      2 * (3 * 18 + 16384) := by
  have fixed : ∀ c ∈ [grantCall, revokeCall], c.here.limits = StorageLimits.default := by
    intro c listed
    rcases List.mem_cons.mp listed with rfl | last
    · rfl
    · rw [List.mem_singleton.mp last]
      rfl
  exact ⟨((quota_ledgers leadingBytes StorageLimits.default _ fixed).2.1 alice).1, by decide +kernel⟩

end Grotto.Relay.Quotas
