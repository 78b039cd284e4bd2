/- GID: Grotto/Base/Windows
   digest: Sliding windows over timed entries, and the look back that keeps each of them small. -/

import Mathlib.Algebra.Order.Group.Int
import Mathlib.Data.List.Basic

set_option autoImplicit false

namespace Grotto.Base.Windows

variable {α : Type} (time : α → Int) (counts : α → Bool)

/-- The entries that count and carry a time within the span that ends at `t`. -/
def window (span t : Int) (entries : List α) : List α :=
  entries.filter fun entry => counts entry && decide (t - span < time entry ∧ time entry ≤ t)

/-- The entries that count and are younger than the span, those of the future included. -/
def recent (span now : Int) (entries : List α) : List α :=
  entries.filter fun entry => counts entry && decide (now - span < time entry)

variable {time counts} {span now t : Int} {limit : Nat} {entries : List α} {entry : α}

theorem window_le_recent (entries : List α) (later : now ≤ t) :
    (window time counts span t entries).length ≤ (recent time counts span now entries).length := by
  refine (List.monotone_filter_right entries fun entry inside => ?_).length_le
  simp only [Bool.and_eq_true, decide_eq_true_eq] at inside ⊢
  exact ⟨inside.1, by omega⟩

theorem window_concat (kept : (window time counts span t entries).length ≤ limit)
    (checked : counts entry = true → (recent time counts span now entries).length < limit)
    (steady : now ≤ time entry) :
    (window time counts span t (entries ++ [entry])).length ≤ limit := by
  unfold window
  rw [List.filter_append, List.length_append]
  rw [List.filter_singleton]
  cases inside : counts entry && decide (t - span < time entry ∧ time entry ≤ t) with
  | true =>
    obtain ⟨counted, placed⟩ := Bool.and_eq_true_iff.mp inside
    have fewer : (window time counts span t entries).length ≤
        (recent time counts span now entries).length :=
      window_le_recent entries (steady.trans (of_decide_eq_true placed).2)
    exact (Nat.add_le_add_right fewer 1).trans (checked counted)
  | false => exact kept

end Grotto.Base.Windows
