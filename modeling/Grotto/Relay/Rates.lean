/- GID: Grotto/Relay/Rates
   digest: `ConnectionHub::admit_request`: whose calls the answer to a user depends on, and how many the
   relay takes. -/

import Grotto.Base.Binary64
import Grotto.Base.Buckets
import Grotto.Protocol.Records

set_option autoImplicit false

namespace Grotto.Relay.Rates

open Format.Postcard (Octets)
open Protocol.Records (UserId)
open Base.Binary64 Base.Buckets

/-- The limits of `RuntimeLimits` that it reads, in the range that `configure` lets through. -/
structure RuntimeLimits where
  requestsPerSecond : Nat := 20
  requestBurst : Nat := 40
  range : 0 < requestsPerSecond ∧ requestsPerSecond < 2 ^ 32 ∧
    0 < requestBurst ∧ requestBurst < 2 ^ 32 := by decide

/-- The operations of `f64` that it uses; `seconds` is `Duration::as_secs_f64` of nanoseconds. -/
structure Arithmetic (F : Type) where
  ofNat : Nat → F
  seconds : Nat → F
  add : F → F → F
  mul : F → F → F
  sub : F → F → F
  min : F → F → F
  lt : F → F → Bool

/-- Instants are in nanoseconds. -/
def second : Nat := 10 ^ 9

/-- The field `rates` of `ConnectionHub`. -/
abbrev Table (F : Type) := UserId → Option (Nat × F)

section Admission

variable {F : Type} (f64 : Arithmetic F) (config : RuntimeLimits)

def write (rates : Table F) (user : UserId) (entry : Nat × F) : Table F :=
  fun other => if other = user then some entry else rates other

/-- `ConnectionHub::admit_request` at the instant `now`. -/
def admitRequest (rates : Table F) (now : Nat) (user : UserId) : Bool × Table F :=
  let rates := fun other => (rates other).filter fun entry => decide ((now - entry.1) / second < 60)
  let entry := (rates user).getD (now, f64.ofNat config.requestBurst)
  let tokens := f64.min
    (f64.add entry.2 (f64.mul (f64.seconds (now - entry.1)) (f64.ofNat config.requestsPerSecond)))
    (f64.ofNat config.requestBurst)
  if f64.lt tokens (f64.ofNat 1) then (false, write rates user (now, tokens))
  else (true, write rates user (now, f64.sub tokens (f64.ofNat 1)))

structure Call where
  time : Nat
  user : UserId

def serve : Table F → List Call → List (Call × Bool)
  | _, [] => []
  | rates, call :: calls =>
    (call, (admitRequest f64 config rates call.time call.user).1) ::
      serve (admitRequest f64 config rates call.time call.user).2 calls

def tableAfter (rates : Table F) (calls : List Call) : Table F :=
  calls.foldl (fun rates call => (admitRequest f64 config rates call.time call.user).2) rates

def terms : Terms F where
  lifetime := 60 * second
  full := f64.ofNat config.requestBurst
  fill elapsed tokens := f64.min
    (f64.add tokens (f64.mul (f64.seconds elapsed) (f64.ofNat config.requestsPerSecond)))
    (f64.ofNat config.requestBurst)
  enough tokens := !f64.lt tokens (f64.ofNat 1)
  take tokens := f64.sub tokens (f64.ofNat 1)

end Admission

/-- The calls of a user that were admitted. -/
def admitted (user : UserId) (served : List (Call × Bool)) : Nat :=
  served.countP fun entry => decide (entry.1.user = user) && entry.2

def made (user : UserId) (calls : List Call) : Nat := calls.countP fun call => decide (call.user = user)

def Ordered (calls : List Call) : Prop := calls.Pairwise fun first next => first.time ≤ next.time

variable {F : Type} {f64 : Arithmetic F} {config : RuntimeLimits} {rates : Table F}
  {now : Nat} {user : UserId}
variable {calls : List Call}

theorem admitRequest_eq : admitRequest f64 config rates now user =
    ((terms f64 config).enough (level (terms f64 config) now (rates user)),
      write (fun other => retained (terms f64 config) now (rates other)) user
        (now, spend (terms f64 config) (level (terms f64 config) now (rates user)))) := by
  have keep : ∀ kept : Option (Nat × F),
      (kept.filter fun entry => decide ((now - entry.1) / second < 60)) =
        retained (terms f64 config) now kept := fun kept =>
    congrArg kept.filter (funext fun _ => decide_eq_decide.mpr (Nat.div_lt_iff_lt_mul (by decide)))
  have spends : ∀ (table : Table F) (found : F),
      (if f64.lt found (f64.ofNat 1) then (false, write table user (now, found))
        else (true, write table user (now, f64.sub found (f64.ofNat 1)))) =
      ((terms f64 config).enough found, write table user (now, spend (terms f64 config) found)) := by
    intro table found
    unfold spend
    change _ = (!f64.lt found (f64.ofNat 1), write table user
      (now, if !f64.lt found (f64.ofNat 1) then f64.sub found (f64.ofNat 1) else found))
    cases f64.lt found (f64.ofNat 1) <;> rfl
  unfold admitRequest
  simp only [keep]
  exact spends _ _

theorem answer_eq : (admitRequest f64 config rates now user).1 =
    (terms f64 config).enough (level (terms f64 config) now (rates user)) := by
  rw [admitRequest_eq]

theorem entry_own : (admitRequest f64 config rates now user).2 user =
    some (now, spend (terms f64 config) (level (terms f64 config) now (rates user))) := by
  rw [admitRequest_eq]
  exact if_pos rfl

theorem entry_other {reader : UserId} (apart : reader ≠ user) :
    (admitRequest f64 config rates now user).2 reader = retained (terms f64 config) now (rates reader) := by
  rw [admitRequest_eq]
  exact if_neg apart

/-- The answers to a user are those to its calls alone, whatever the arithmetic does. -/
theorem answers_isolated {F : Type} (f64 : Arithmetic F) (config : RuntimeLimits) (rates : Table F)
    (user : UserId) (calls : {calls : List Call // Ordered calls}) :
    (serve f64 config rates calls.1).filter (fun entry => decide (entry.1.user = user)) =
      serve f64 config rates (calls.1.filter fun call => decide (call.user = user)) := by
  obtain ⟨calls, ordered⟩ := calls
  -- The two tables differ: only one of them has forgotten the idle entries at the others' calls.
  suffices general : ∀ alone : Table F, (∀ call ∈ calls, ∀ later ≥ call.time,
      level (terms f64 config) later (rates user) = level (terms f64 config) later (alone user)) →
      (serve f64 config rates calls).filter (fun entry => decide (entry.1.user = user)) =
        serve f64 config alone (calls.filter fun call => decide (call.user = user)) from
    general rates fun _ _ _ _ => rfl
  induction calls generalizing rates with
  | nil => exact fun _ _ => rfl
  | cons call calls ih =>
    intro alone same
    obtain ⟨after, rest⟩ := List.pairwise_cons.mp ordered
    by_cases mine : call.user = user
    · have found := same call List.mem_cons_self call.time le_rfl
      simp only [serve, List.filter_cons, mine, decide_true, ↓reduceIte, answer_eq, found]
      rw [ih _ rest]
      intro next listed later order
      rw [entry_own, entry_own, found]
    · simp only [serve, List.filter_cons, mine, decide_false, Bool.false_eq_true, ↓reduceIte]
      refine ih _ rest alone fun next listed later order => ?_
      rw [entry_other (Ne.symm mine), level_retained ((after next listed).trans order)]
      exact same next (List.mem_cons_of_mem _ listed) later order

section Rounding

/-- `f64` on the numbers that occur here: none is negative, and none too large or too small for it. -/
def binary64 : Arithmetic ℚ where
  ofNat n := nearest n
  seconds n := nearest (nearest (n / second : Nat) + nearest (nearest (n % second : Nat) / nearest second))
  add x y := nearest (x + y)
  mul x y := nearest (x * y)
  sub x y := nearest (x - y)
  min x y := min x y
  lt x y := decide (x < y)

def gain (config : RuntimeLimits) : ℚ := config.requestsPerSecond * (1 + unit) ^ 4 / second

theorem unit_pos : 0 < unit := by norm_num [unit]

theorem seconds_bounds (elapsed : Nat) : 0 ≤ binary64.seconds elapsed ∧
    binary64.seconds elapsed ≤ elapsed / second * (1 + unit) ^ 2 := by
  have exactSecond : nearest (second : Nat) = (second : Nat) := nearest_natCast (by decide)
  have exactRest : nearest (elapsed % second : Nat) = (elapsed % second : Nat) :=
    nearest_natCast ((Nat.mod_lt _ (by decide)).trans (by decide))
  have positive : (0 : ℚ) < second := by norm_num [second]
  have whole : (0 : ℚ) ≤ (elapsed / second : Nat) := Nat.cast_nonneg _
  have part : (0 : ℚ) ≤ (elapsed % second : Nat) / second := by positivity
  have split : (elapsed : ℚ) / second = (elapsed / second : Nat) + (elapsed % second : Nat) / second := by
    rw [div_eq_iff positive.ne', add_mul, div_mul_cancel₀ _ positive.ne', mul_comm]
    exact_mod_cast (Nat.div_add_mod elapsed second).symm
  change 0 ≤ nearest (nearest (elapsed / second : Nat) + nearest (nearest (elapsed % second : Nat) /
    nearest second)) ∧ nearest (nearest (elapsed / second : Nat) + nearest (nearest
      (elapsed % second : Nat) / nearest second)) ≤ _
  rw [exactSecond, exactRest, split]
  have sum := add_nonneg (nearest_nonneg whole) (nearest_nonneg part)
  refine ⟨nearest_nonneg sum, (nearest_le sum).trans ?_⟩
  have rounded := add_le_add (nearest_le whole) (nearest_le part)
  rw [← add_mul] at rounded
  calc _ ≤ ((elapsed / second : Nat) + (elapsed % second : Nat) / second) * (1 + unit) * (1 + unit) :=
        mul_le_mul_of_nonneg_right rounded (by linarith [unit_pos])
    _ = _ := by ring

theorem fill_eq (config : RuntimeLimits) (elapsed : Nat) (tokens : ℚ) :
    (terms binary64 config).fill elapsed tokens = min
      (nearest (tokens + nearest (binary64.seconds elapsed * config.requestsPerSecond)))
      config.requestBurst := by
  have range := config.range
  change min (nearest (tokens + nearest (binary64.seconds elapsed *
    nearest config.requestsPerSecond))) (nearest config.requestBurst) = _
  rw [nearest_natCast (by omega), nearest_natCast (by omega)]

/-- Filling gains the rate of the elapsed time, with four roundings, and one rounding of what was there. -/
theorem fill_bounds (config : RuntimeLimits) (elapsed : Nat) {tokens : ℚ} (positive : 0 ≤ tokens)
    (capped : tokens ≤ config.requestBurst) :
    0 ≤ (terms binary64 config).fill elapsed tokens ∧
    (terms binary64 config).fill elapsed tokens ≤ config.requestBurst ∧
    (terms binary64 config).fill elapsed tokens ≤
      tokens + elapsed * gain config + config.requestBurst * unit := by
  obtain ⟨since, sinceLe⟩ := seconds_bounds elapsed
  have rate : (0 : ℚ) ≤ config.requestsPerSecond := Nat.cast_nonneg _
  have one : 0 ≤ 1 + unit := by linarith [unit_pos]
  have product := mul_nonneg since rate
  have sum := add_nonneg positive (nearest_nonneg product)
  rw [fill_eq]
  refine ⟨le_min (nearest_nonneg sum) (Nat.cast_nonneg _), min_le_right _ _, (min_le_left _ _).trans ?_⟩
  calc nearest (tokens + nearest (binary64.seconds elapsed * config.requestsPerSecond))
      ≤ (tokens + binary64.seconds elapsed * config.requestsPerSecond * (1 + unit)) * (1 + unit) :=
        (nearest_le sum).trans (mul_le_mul_of_nonneg_right (by linarith [nearest_le product]) one)
    _ ≤ (tokens + elapsed / second * (1 + unit) ^ 2 * config.requestsPerSecond * (1 + unit)) *
          (1 + unit) := by gcongr
    _ = tokens + elapsed * gain config + tokens * unit := by
        unfold gain
        ring
    _ ≤ tokens + elapsed * gain config + config.requestBurst * unit := by
        linarith [mul_le_mul_of_nonneg_right capped unit_pos.le]

theorem metered (config : RuntimeLimits) (slow : config.requestBurst ≤ 60 * config.requestsPerSecond) :
    Metered (terms binary64 config) (gain config) config.requestBurst (config.requestBurst * unit) := by
  have range := config.range
  have burst : nearest config.requestBurst = config.requestBurst := nearest_natCast (by omega)
  have one : nearest (1 : Nat) = 1 := (nearest_natCast (by decide)).trans Nat.cast_one
  have small : (config.requestBurst : ℚ) ≤ 2 ^ 32 := by exact_mod_cast range.2.2.2.le
  have few : (config.requestBurst : ℚ) ≤ 60 * config.requestsPerSecond := by exact_mod_cast slow
  refine ⟨?_, ⟨?_, ?_⟩, ⟨?_, ?_⟩, fun elapsed tokens => fill_bounds config elapsed, ?_, ?_⟩
  · exact div_nonneg (mul_nonneg (Nat.cast_nonneg _) (by have := unit_pos; positivity)) (Nat.cast_nonneg _)
  · exact mul_nonneg (Nat.cast_nonneg _) unit_pos.le
  · calc (config.requestBurst : ℚ) * unit ≤ 2 ^ 32 * unit := mul_le_mul_of_nonneg_right small unit_pos.le
      _ ≤ 1 := by norm_num [unit]
  · exact nearest_nonneg (Nat.cast_nonneg _)
  · exact burst.le
  · intro tokens capped enough
    change (!decide (tokens < nearest (1 : Nat))) = true at enough
    rw [one] at enough
    have paid : 0 ≤ tokens - 1 := by simpa using enough
    change 0 ≤ nearest (tokens - nearest (1 : Nat)) ∧ nearest (tokens - nearest (1 : Nat)) ≤ _
    rw [one]
    refine ⟨nearest_nonneg paid, (nearest_le paid).trans ?_⟩
    have error := mul_le_mul_of_nonneg_right (show tokens - 1 ≤ config.requestBurst by linarith) unit_pos.le
    linarith
  · have grown : (1 : ℚ) ≤ (1 + unit) ^ 4 := one_le_pow₀ (by linarith [unit_pos])
    have scaled : ((terms binary64 config).lifetime : ℚ) * gain config =
        60 * config.requestsPerSecond * (1 + unit) ^ 4 := by
      have positive : (second : ℚ) ≠ 0 := by norm_num [second]
      change ((60 * second : Nat) : ℚ) * _ = _
      unfold gain
      push_cast
      field_simp
    rw [scaled]
    exact few.trans (le_mul_of_one_le_right (by positivity) grown)

end Rounding

section Bound

theorem within_tableAfter (slow : config.requestBurst ≤ 60 * config.requestsPerSecond) (user : UserId)
    {rates : Table ℚ} (within : Within config.requestBurst (rates user)) (calls : List Call) :
    Within config.requestBurst (tableAfter binary64 config rates calls user) := by
  induction calls generalizing rates with
  | nil => exact within
  | cons call calls ih =>
    refine ih ?_
    change Within _ ((admitRequest binary64 config rates call.time call.user).2 user)
    by_cases mine : call.user = user
    · subst mine
      rw [entry_own]
      exact ((metered config slow).spend_bounds within).1
    · rw [entry_other (Ne.symm mine)]
      intro bucket kept
      exact within bucket (Option.mem_filter_iff.mp kept).1

theorem admitted_le_credit (slow : config.requestBurst ≤ 60 * config.requestsPerSecond) {last : Nat}
    {rates : Table ℚ} (kept : Within config.requestBurst (rates user)) (ordered : Ordered calls)
    (within : ∀ call ∈ calls, now ≤ call.time ∧ call.time ≤ last) (order : now ≤ last) :
    (admitted user (serve binary64 config rates calls) : ℚ) ≤
      credit (gain config) config.requestBurst now (rates user) + (last - now : Nat) * gain config +
        made user calls * (2 * (config.requestBurst * unit)) := by
  have limits := metered config slow
  induction calls generalizing rates now with
  | nil =>
    have start : 0 ≤ credit (gain config) config.requestBurst now (rates user) := limits.credit_nonneg kept
    have filled : 0 ≤ ((last - now : Nat) : ℚ) * gain config := mul_nonneg (Nat.cast_nonneg _) limits.gains
    simp only [serve, admitted, made, List.countP_nil, Nat.cast_zero, zero_mul]
    linarith
  | cons call calls ih =>
    obtain ⟨after, rest⟩ := List.pairwise_cons.mp ordered
    obtain ⟨early, late⟩ := within call List.mem_cons_self
    have later : credit (gain config) config.requestBurst call.time (rates user) ≤ _ :=
      limits.credit_later early
    have span : ((last - now : Nat) : ℚ) * gain config =
        (call.time - now : Nat) * gain config + (last - call.time : Nat) * gain config := by
      rw [← add_mul, ← Nat.cast_add]
      congr 2
      omega
    have onward : ∀ next ∈ calls, call.time ≤ next.time ∧ next.time ≤ last := fun next listed =>
      ⟨after next listed, (within next (List.mem_cons_of_mem _ listed)).2⟩
    have others := fun bounds =>
      @ih call.time (admitRequest binary64 config rates call.time call.user).2 bounds rest onward late
    simp only [serve, admitted, made, List.countP_cons] at others ⊢
    by_cases mine : call.user = user
    · subst mine
      obtain ⟨bounds, paid⟩ := @Metered.spend_bounds _ _ _ _ call.time _ limits kept
      rw [entry_own] at others
      have rest' := others bounds
      have left := @credit_now (gain config) config.requestBurst call.time
        (spend (terms binary64 config) (level (terms binary64 config) call.time (rates call.user)))
      simp only [answer_eq, decide_true, Bool.true_and, ↓reduceIte]
      push_cast
      linarith
    · rw [entry_other (Ne.symm mine)] at others
      have rest' := others fun bucket listed => kept bucket (Option.mem_filter_iff.mp listed).1
      rw [limits.credit_retained kept] at rest'
      simp only [mine, decide_false, Bool.false_and, Bool.false_eq_true, ↓reduceIte, Nat.add_zero]
      linarith

/-- In any run, over any span of time, a user gets at most a burst, the rate of the span, and what the
roundings of `f64` can add to each of its calls, if a burst fills up before the relay forgets the user. -/
theorem admitted_within_rate (config : RuntimeLimits)
    (slow : config.requestBurst ≤ 60 * config.requestsPerSecond) (user : UserId)
    (earlier calls : List Call) (ordered : Ordered (earlier ++ calls)) (first last : Nat)
    (order : first ≤ last) (within : ∀ call ∈ calls, first ≤ call.time ∧ call.time ≤ last) :
    (admitted user (serve binary64 config (tableAfter binary64 config (fun _ => none) earlier) calls) : ℚ) ≤
      config.requestBurst + config.requestsPerSecond * ((last - first : Nat) / second) * (1 + unit) ^ 4 +
        made user calls * (2 * (config.requestBurst * unit)) := by
  have kept : Within config.requestBurst
      (tableAfter binary64 config (fun _ => none) earlier user) :=
    within_tableAfter slow user (fun _ listed => absurd listed (Option.not_mem_none _)) earlier
  have bound := admitted_le_credit slow kept (List.pairwise_append.mp ordered).2.1 within order
  have full := @credit_le (gain config) config.requestBurst first
    (tableAfter binary64 config (fun _ => none) earlier user)
  have rate : ((last - first : Nat) : ℚ) * gain config =
      config.requestsPerSecond * ((last - first : Nat) / second) * (1 + unit) ^ 4 := by
    unfold gain
    ring
  linarith

def caller : UserId := ⟨Octets.replicate 16 0x44⟩

theorem burst_admitted : admitted caller (serve binary64 {} (tableAfter binary64 {} (fun _ => none) [])
    (List.replicate 41 ⟨0, caller⟩)) ≤ 40 := by
  have bound := admitted_within_rate {} (by decide) caller [] (List.replicate 41 ⟨0, caller⟩)
    (List.pairwise_replicate.mpr (.inr le_rfl)) 0 0 le_rfl
    fun call listed => by rw [List.eq_of_mem_replicate listed]; exact ⟨le_rfl, le_rfl⟩
  have calls : made caller (List.replicate 41 ⟨0, caller⟩) = 41 := by simp [made]
  rw [calls] at bound
  have below : (admitted caller (serve binary64 {} (tableAfter binary64 {} (fun _ => none) [])
      (List.replicate 41 ⟨0, caller⟩)) : ℚ) < 41 := lt_of_le_of_lt bound (by norm_num [unit, second])
  exact Nat.lt_succ_iff.mp (by exact_mod_cast below)

end Bound

end Grotto.Relay.Rates
