/- GID: Grotto/Base/Buckets
   digest: Token buckets that fill with time, what forgetting the idle ones changes, and what they can
   give when their arithmetic errs. -/

import Mathlib.Algebra.Order.Field.Basic
import Mathlib.Data.Rat.Defs
import Mathlib.Algebra.Order.Ring.Rat
import Mathlib.Tactic.Linarith

set_option autoImplicit false

namespace Grotto.Base.Buckets

/-- How long a bucket is kept, what it holds at first and after some time, whether that is enough for a
call, and what the call leaves. -/
structure Terms (τ : Type) where
  lifetime : Nat
  full : τ
  fill : Nat → τ → τ
  enough : τ → Bool
  take : τ → τ

section Forgetting

variable {τ : Type} (terms : Terms τ)

/-- A bucket is the time of its last call with the tokens that were left. -/
def retained (now : Nat) (kept : Option (Nat × τ)) : Option (Nat × τ) :=
  kept.filter fun bucket => decide (now - bucket.1 < terms.lifetime)

/-- The tokens that a call finds: a new bucket is filled once too. -/
def level (now : Nat) (kept : Option (Nat × τ)) : τ :=
  let bucket := (retained terms now kept).getD (now, terms.full)
  terms.fill (now - bucket.1) bucket.2

def spend (found : τ) : τ := if terms.enough found then terms.take found else found

variable {terms} {now later : Nat} {kept : Option (Nat × τ)}

theorem retained_some {last : Nat} {tokens : τ} : retained terms now (some (last, tokens)) =
    if now - last < terms.lifetime then some (last, tokens) else none := by
  simp only [retained, Option.filter_some, decide_eq_true_eq]

theorem retained_retained (order : now ≤ later) :
    retained terms later (retained terms now kept) = retained terms later kept := by
  match kept with
  | none => rfl
  | some (last, tokens) =>
    rw [retained_some]
    split_ifs with young
    · rfl
    · rw [retained_some, if_neg (by omega)]
      rfl

theorem level_retained (order : now ≤ later) :
    level terms later (retained terms now kept) = level terms later kept := by
  unfold level
  rw [retained_retained order]

end Forgetting

section Metering

/-- Terms that gain no more than `gain` a unit of time and no more than `slack` by an error of filling or
taking, hold no more than `cap`, and are full before they are forgotten. -/
structure Metered (terms : Terms ℚ) (gain cap slack : ℚ) : Prop where
  gains : 0 ≤ gain
  slight : 0 ≤ slack ∧ slack ≤ 1
  full : 0 ≤ terms.full ∧ terms.full ≤ cap
  fill : ∀ elapsed tokens, 0 ≤ tokens → tokens ≤ cap → 0 ≤ terms.fill elapsed tokens ∧
    terms.fill elapsed tokens ≤ cap ∧ terms.fill elapsed tokens ≤ tokens + elapsed * gain + slack
  take : ∀ tokens, tokens ≤ cap → terms.enough tokens = true →
    0 ≤ terms.take tokens ∧ terms.take tokens ≤ tokens - 1 + slack
  refills : cap ≤ terms.lifetime * gain

def Within (cap : ℚ) (kept : Option (Nat × ℚ)) : Prop :=
  ∀ bucket ∈ kept, 0 ≤ bucket.2 ∧ bucket.2 ≤ cap

/-- What a bucket could hold at most if nothing erred. -/
def credit (gain cap : ℚ) (now : Nat) : Option (Nat × ℚ) → ℚ
  | none => cap
  | some (last, tokens) => min cap (tokens + (now - last : Nat) * gain)

variable {terms : Terms ℚ} {gain cap slack : ℚ} {now later : Nat} {kept : Option (Nat × ℚ)}

theorem credit_le : credit gain cap now kept ≤ cap := by
  unfold credit
  split
  · exact le_rfl
  · exact min_le_left _ _

theorem credit_now {tokens : ℚ} : credit gain cap now (some (now, tokens)) ≤ tokens := by
  rw [credit, Nat.sub_self, Nat.cast_zero, zero_mul, add_zero]
  exact min_le_right _ _

namespace Metered

variable (metered : Metered terms gain cap slack)

include metered

theorem cap_nonneg : 0 ≤ cap := metered.full.1.trans metered.full.2

theorem credit_nonneg (within : Within cap kept) : 0 ≤ credit gain cap now kept := by
  match kept with
  | none => exact metered.cap_nonneg
  | some (last, tokens) =>
    have positive := (within (last, tokens) rfl).1
    exact le_min metered.cap_nonneg (add_nonneg positive (mul_nonneg (Nat.cast_nonneg _) metered.gains))

theorem credit_later (order : now ≤ later) :
    credit gain cap later kept ≤ credit gain cap now kept + (later - now : Nat) * gain := by
  have filled : 0 ≤ ((later - now : Nat) : ℚ) * gain := mul_nonneg (Nat.cast_nonneg _) metered.gains
  match kept with
  | none => exact le_add_of_nonneg_right filled
  | some (last, tokens) =>
    have split : ((later - last : Nat) : ℚ) ≤ (now - last : Nat) + (later - now : Nat) := by
      rw [← Nat.cast_add]
      exact Nat.cast_le.mpr (by omega)
    have gained := mul_le_mul_of_nonneg_right split metered.gains
    change min cap _ ≤ min cap _ + _
    rw [← min_add_add_right]
    exact le_min ((min_le_left _ _).trans (le_add_of_nonneg_right filled))
      ((min_le_right _ _).trans (by linarith))

theorem credit_old {last : Nat} {tokens : ℚ} (positive : 0 ≤ tokens)
    (old : ¬now - last < terms.lifetime) : credit gain cap now (some (last, tokens)) = cap := by
  have aged : (terms.lifetime : ℚ) ≤ (now - last : Nat) := Nat.cast_le.mpr (not_lt.mp old)
  have gained := mul_le_mul_of_nonneg_right aged metered.gains
  exact min_eq_left (by linarith [metered.refills])

theorem credit_retained (within : Within cap kept) :
    credit gain cap now (retained terms now kept) = credit gain cap now kept := by
  match kept with
  | none => rfl
  | some (last, tokens) =>
    rw [retained_some]
    split_ifs with young
    · rfl
    · exact (metered.credit_old (within (last, tokens) rfl).1 young).symm

theorem level_bounds (now : Nat) (within : Within cap kept) : 0 ≤ level terms now kept ∧
    level terms now kept ≤ cap ∧ level terms now kept ≤ credit gain cap now kept + slack := by
  have slight := metered.slight.1
  have new := metered.fill 0 _ metered.full.1 metered.full.2
  match kept with
  | none =>
    unfold level
    simp only [retained, Option.filter_none, Option.getD_none, Nat.sub_self]
    exact ⟨new.1, new.2.1, new.2.1.trans (le_add_of_nonneg_right slight)⟩
  | some (last, tokens) =>
    have bounds := within (last, tokens) rfl
    unfold level
    simp only [retained_some]
    split_ifs with young
    · obtain ⟨positive, capped, near⟩ := metered.fill (now - last) tokens bounds.1 bounds.2
      refine ⟨positive, capped, ?_⟩
      rw [Option.getD_some, credit, ← min_add_add_right]
      exact le_min (capped.trans (le_add_of_nonneg_right slight)) near
    · rw [metered.credit_old bounds.1 young]
      simp only [Option.getD_none, Nat.sub_self]
      exact ⟨new.1, new.2.1, new.2.1.trans (le_add_of_nonneg_right slight)⟩

/-- A call that is admitted costs one token, but for the errors of filling and taking. -/
theorem spend_bounds (within : Within cap kept) :
    Within cap (some (now, spend terms (level terms now kept))) ∧
    (if terms.enough (level terms now kept) then 1 else 0) + spend terms (level terms now kept) ≤
      credit gain cap now kept + 2 * slack := by
  obtain ⟨positive, capped, near⟩ := metered.level_bounds now within
  have slight := metered.slight
  unfold spend
  split_ifs with enough
  · obtain ⟨left, paid⟩ := metered.take _ capped enough
    refine ⟨?_, by linarith⟩
    rintro bucket ⟨⟩
    exact ⟨left, by linarith⟩
  · refine ⟨?_, by linarith⟩
    rintro bucket ⟨⟩
    exact ⟨positive, capped⟩

end Metered

end Metering

end Grotto.Base.Buckets
