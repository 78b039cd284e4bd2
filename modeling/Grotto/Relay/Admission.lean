/- GID: Grotto/Relay/Admission
   digest: `HandshakeLease`: the unfinished handshakes, counted for each address and in all. -/

import Grotto.Base.Keyed
import Grotto.Format.Postcard
import Mathlib.Data.List.Perm.Basic

set_option autoImplicit false

namespace Grotto.Relay.Admission

open Format.Postcard (Octets)
open Base.Keyed

inductive IpAddr
  | v4 (octets : Octets 4)
  | v6 (octets : Octets 16)
  deriving DecidableEq

/-- The limits of `RuntimeLimits` that admission reads. -/
structure RuntimeLimits where
  handshakes : Nat := 16
  handshakesPerIp : Nat := 4

structure Pending where
  counts : List (IpAddr × Nat) := []
  poisoned : Bool := false
  deriving DecidableEq

namespace Pending

def count (pending : Pending) (ip : IpAddr) : Nat := (pending.counts.lookup ip).getD 0

/-- `HandshakeLease::acquire`: the counts with the new lease in them, if there is room for it. -/
def acquire (limits : RuntimeLimits) (pending : Pending) (ip : IpAddr) : Option Pending :=
  if pending.poisoned then none
  else if total pending.counts ≥ limits.handshakes ∨ pending.count ip ≥ limits.handshakesPerIp then
    none
  else some { pending with counts := upsert ip (pending.count ip + 1) pending.counts }

/-- `HandshakeLease::drop`. A decrement below zero panics inside the mutex. -/
def drop (pending : Pending) (ip : IpAddr) : Pending :=
  match pending.counts.lookup ip with
  | none => pending
  | some count =>
    if count = 0 then { pending with poisoned := true }
    else if count - 1 = 0 then
      { pending with counts := pending.counts.filter fun entry => decide (entry.1 ≠ ip) }
    else { pending with counts := upsert ip (count - 1) pending.counts }

end Pending

structure Admissions where
  pending : Pending := {}
  live : List IpAddr := []
  deriving DecidableEq

inductive Turn
  | acquire (ip : IpAddr)
  | drop (lease : Nat)

namespace Admissions

/-- A connection is admitted or turned away, or one of the leases is dropped. -/
def step (limits : RuntimeLimits) (s : Admissions) : Turn → Admissions
  | .acquire ip =>
    match s.pending.acquire limits ip with
    | none => s
    | some pending => ⟨pending, s.live ++ [ip]⟩
  | .drop lease =>
    match s.live[lease]? with
    | none => s
    | some ip => ⟨s.pending.drop ip, s.live.eraseIdx lease⟩

def run (limits : RuntimeLimits) (turns : List Turn) : Admissions :=
  turns.foldl (step limits) {}

end Admissions

/-- The entry a map of counts has for an address with `n` leases. -/
def entryOf (n : Nat) : Option Nat := if n = 0 then none else some n

structure Tallied (limits : RuntimeLimits) (s : Admissions) : Prop where
  sane : s.pending.poisoned = false
  keys : (s.pending.counts.map Prod.fst).Nodup
  counted : ∀ ip, s.pending.counts.lookup ip = entryOf (s.live.count ip)
  whole : total s.pending.counts = s.live.length
  bounded : s.live.length ≤ limits.handshakes
  each : ∀ ip, s.live.count ip ≤ limits.handshakesPerIp

variable {limits : RuntimeLimits} {s : Admissions}

theorem getD_entryOf (n : Nat) : (entryOf n).getD 0 = n := by
  unfold entryOf
  split
  · rename_i zero
    exact zero.symm
  · rfl

theorem entryOf_succ (n : Nat) : entryOf (n + 1) = some (n + 1) := if_neg (Nat.succ_ne_zero n)

theorem Tallied.count (tallied : Tallied limits s) (ip : IpAddr) : s.pending.count ip = s.live.count ip := by
  unfold Pending.count
  rw [tallied.counted, getD_entryOf]

theorem tallied_start : Tallied limits {} where
  sane := rfl
  keys := List.nodup_nil
  counted _ := rfl
  whole := rfl
  bounded := Nat.zero_le _
  each _ := Nat.zero_le _

theorem Tallied.acquire_eq (tallied : Tallied limits s) (ip : IpAddr) : s.pending.acquire limits ip =
    if s.live.length < limits.handshakes ∧ s.live.count ip < limits.handshakesPerIp then
      some ⟨upsert ip (s.live.count ip + 1) s.pending.counts, false⟩
    else none := by
  unfold Pending.acquire
  rw [tallied.sane, if_neg Bool.false_ne_true, tallied.whole, tallied.count]
  by_cases room : s.live.length < limits.handshakes ∧ s.live.count ip < limits.handshakesPerIp
  · rw [if_pos room, if_neg (by omega)]
  · rw [if_neg room, if_pos (by omega)]

theorem Tallied.acquire (tallied : Tallied limits s) (ip : IpAddr) :
    Tallied limits (s.step limits (.acquire ip)) := by
  dsimp only [Admissions.step]
  rw [tallied.acquire_eq]
  by_cases room : s.live.length < limits.handshakes ∧ s.live.count ip < limits.handshakesPerIp
  · rw [if_pos room]
    have more : ∀ other, (s.live ++ [ip]).count other = s.live.count other + if ip = other then 1 else 0 := by
      intro other
      rw [List.count_append, List.count_singleton]
      simp only [beq_iff_eq]
    refine ⟨rfl, nodup_upsert tallied.keys, fun other => ?_, ?_, ?_, fun other => ?_⟩
    · rw [lookup_upsert, more, tallied.counted]
      by_cases same : ip = other
      · subst same
        rw [if_pos rfl, if_pos rfl, entryOf_succ]
      · rw [if_neg fun found => same found.symm, if_neg same, Nat.add_zero]
    · dsimp only
      have swapped := @total_upsert _ _ _ _ ip (s.live.count ip + 1) s.pending.counts
      rw [tallied.counted, getD_entryOf, tallied.whole] at swapped
      rw [List.length_append, List.length_singleton]
      omega
    · rw [List.length_append, List.length_singleton]
      omega
    · rw [more]
      by_cases same : ip = other
      · subst same
        rw [if_pos rfl]
        omega
      · rw [if_neg same]
        exact tallied.each other
  · rw [if_neg room]
    exact tallied

theorem Tallied.drop_eq (tallied : Tallied limits s) {ip : IpAddr} (alive : ip ∈ s.live) :
    s.pending.drop ip = ⟨if s.live.count ip - 1 = 0 then
        s.pending.counts.filter fun entry => decide (entry.1 ≠ ip)
      else upsert ip (s.live.count ip - 1) s.pending.counts, false⟩ := by
  have positive : s.live.count ip ≠ 0 := Nat.ne_of_gt (List.count_pos_iff.mpr alive)
  unfold Pending.drop
  rw [tallied.counted, entryOf, if_neg positive]
  dsimp only
  rw [if_neg positive, tallied.sane]
  split
  · rfl
  · rfl

theorem Tallied.drop (tallied : Tallied limits s) (lease : Nat) :
    Tallied limits (s.step limits (.drop lease)) := by
  dsimp only [Admissions.step]
  cases found : s.live[lease]? with
  | none => exact tallied
  | some ip =>
    obtain ⟨inside, here⟩ := List.getElem?_eq_some_iff.mp found
    have split := List.getElem_cons_eraseIdx_perm inside
    rw [here] at split
    have counts : ∀ other, s.live.count other =
        (s.live.eraseIdx lease).count other + if ip = other then 1 else 0 := by
      intro other
      rw [← split.count_eq other, List.count_cons]
      simp only [beq_iff_eq]
    have length : s.live.length = (s.live.eraseIdx lease).length + 1 := split.length_eq.symm
    have rest : s.live.count ip - 1 = (s.live.eraseIdx lease).count ip := by
      rw [counts ip, if_pos rfl, Nat.add_sub_cancel]
    have before := tallied.counted ip
    dsimp only
    rw [tallied.drop_eq (here ▸ List.getElem_mem inside), rest]
    refine ⟨rfl, ?_, fun other => ?_, ?_, ?_, fun other => ?_⟩
    · split
      · exact tallied.keys.sublist (List.filter_sublist.map _)
      · exact nodup_upsert tallied.keys
    · have after := counts other
      by_cases same : ip = other
      · subst same
        split
        · rename_i last
          rw [lookup_filter, if_pos rfl, last]
          rfl
        · rename_i more
          rw [lookup_upsert, if_pos rfl, entryOf, if_neg more]
      · rw [if_neg same, Nat.add_zero] at after
        rw [← after, ← tallied.counted other]
        split
        · rw [lookup_filter, if_neg fun found => same found.symm]
        · rw [lookup_upsert, if_neg fun found => same found.symm]
    · have whole := tallied.whole
      rw [counts ip, if_pos rfl, entryOf_succ] at before
      dsimp only
      split
      · rename_i last
        have taken := @total_filter _ _ _ _ ip _ tallied.keys
        rw [before, Option.getD_some] at taken
        omega
      · have swapped := @total_upsert _ _ _ _ ip ((s.live.eraseIdx lease).count ip) s.pending.counts
        rw [before, Option.getD_some] at swapped
        omega
    · have bounded := tallied.bounded
      dsimp only
      omega
    · have each := tallied.each other
      have after := counts other
      dsimp only
      omega

theorem tallied_step (tallied : Tallied limits s) (turn : Turn) : Tallied limits (s.step limits turn) := by
  cases turn with
  | acquire ip => exact tallied.acquire ip
  | drop lease => exact tallied.drop lease

theorem tallied_run (limits : RuntimeLimits) (turns : List Turn) :
    Tallied limits (Admissions.run limits turns) := by
  have onward : ∀ s, Tallied limits s → Tallied limits (turns.foldl (Admissions.step limits) s) := by
    induction turns with
    | nil => exact fun s tallied => tallied
    | cons turn turns ih => exact fun s tallied => ih _ (tallied_step tallied turn)
  exact onward {} tallied_start

/-- After any acquisitions and drops: every address is counted with the leases it has alive, and
an address without one has no entry; both limits hold, and a lease is given exactly if they leave
room; no drop counts below zero; and once all leases are dropped the map is empty. -/
theorem handshake_counts_exact (limits : RuntimeLimits) (turns : List Turn) :
    let s := Admissions.run limits turns
    s.pending.poisoned = false ∧
    (∀ ip, s.pending.count ip = s.live.count ip) ∧
    (∀ entry ∈ s.pending.counts, entry.2 ≠ 0) ∧
    (s.pending.counts.map Prod.fst).Nodup ∧
    total s.pending.counts = s.live.length ∧
    total s.pending.counts ≤ limits.handshakes ∧
    (∀ ip, s.pending.count ip ≤ limits.handshakesPerIp) ∧
    (∀ ip, (s.pending.acquire limits ip).isSome ↔
      s.live.length < limits.handshakes ∧ s.live.count ip < limits.handshakesPerIp) ∧
    (∀ ip ∈ s.live, (s.pending.drop ip).poisoned = false ∧
      ∃ count, s.pending.counts.lookup ip = some (count + 1)) ∧
    (s.live = [] → s.pending.counts = []) := by
  intro s
  have tallied : Tallied limits s := tallied_run limits turns
  refine ⟨tallied.sane, tallied.count, fun entry listed zero => ?_, tallied.keys, tallied.whole,
    ?_, fun ip => ?_,
    fun ip => ?_, fun ip alive => ⟨?_, ?_⟩, fun empty => ?_⟩
  · have found := lookup_of_mem tallied.keys (show (entry.1, entry.2) ∈ _ from listed)
    rw [tallied.counted, entryOf] at found
    split at found
    · cases found
    · rename_i some'
      exact some' ((Option.some.inj found).trans zero)
  · rw [tallied.whole]
    exact tallied.bounded
  · rw [tallied.count]
    exact tallied.each ip
  · rw [tallied.acquire_eq]
    split
    · rename_i room
      exact ⟨fun _ => room, fun _ => rfl⟩
    · rename_i full
      exact ⟨nofun, fun room => (full room).elim⟩
  · rw [tallied.drop_eq alive]
  · obtain ⟨count, same⟩ := Nat.exists_eq_succ_of_ne_zero (Nat.ne_of_gt (List.count_pos_iff.mpr alive))
    refine ⟨count, ?_⟩
    rw [tallied.counted, same]
    exact entryOf_succ count
  · cases entries : s.pending.counts with
    | nil => rfl
    | cons entry rest =>
      have found := tallied.counted entry.1
      rw [entries, lookup_cons_ite, if_pos rfl, empty] at found
      cases found

example : (Admissions.run {} (List.replicate 5 (.acquire (.v4 (Octets.replicate 4 127))))).live.length = 4 := by
  decide

end Grotto.Relay.Admission
