/- GID: Grotto/Base/Keyed
   digest: Tables as lists of rows with distinct keys. -/

import Mathlib.Algebra.Order.Ring.Nat
import Mathlib.Data.List.Nodup

set_option autoImplicit false

namespace Grotto.Base.Keyed

variable {ρ κ : Type} {key : ρ → κ} {rows : List ρ} {row : ρ}

theorem nodup_map_append (distinct : (rows.map key).Nodup) (apart : ∀ found ∈ rows, key found ≠ key row) :
    ((rows ++ [row]).map key).Nodup := by
  rw [List.map_append, List.map_singleton]
  refine List.nodup_append.mpr ⟨distinct, List.nodup_singleton _, ?_⟩
  intro value listed other single same
  obtain ⟨found, present, rfl⟩ := List.mem_map.mp listed
  obtain rfl := List.mem_singleton.mp single
  exact apart found present same

theorem find?_of_mem [DecidableEq κ] (distinct : (rows.map key).Nodup) (listed : row ∈ rows) :
    (rows.find? fun r => decide (key r = key row)) = some row := by
  cases found : rows.find? fun r => decide (key r = key row) with
  | none => exact absurd (decide_eq_true rfl) (List.find?_eq_none.mp found row listed)
  | some other =>
    have same : key other = key row := of_decide_eq_true (List.find?_some found :)
    rw [List.inj_on_of_nodup_map distinct (List.mem_of_find?_eq_some found) listed same]

section Upserts

variable {ν : Type} [DecidableEq κ]

/-- `INSERT .. ON CONFLICT DO UPDATE` in a table of keys and values. -/
def upsert (k : κ) (v : ν) : List (κ × ν) → List (κ × ν)
  | [] => [(k, v)]
  | entry :: entries => if entry.1 = k then (k, v) :: entries else entry :: upsert k v entries

variable [BEq κ] [LawfulBEq κ] {k other : κ} {v : ν} {entries : List (κ × ν)}

theorem lookup_cons_ite (entry : κ × ν) :
    (entry :: entries).lookup k = if k = entry.1 then some entry.2 else entries.lookup k := by
  rw [List.lookup_cons]
  by_cases found : k = entry.1
  · rw [if_pos found, beq_iff_eq.mpr found]
  · rw [if_neg found, beq_eq_false_iff_ne.mpr found]

theorem lookup_upsert :
    (upsert k v entries).lookup other = if other = k then some v else entries.lookup other := by
  induction entries with
  | nil => exact lookup_cons_ite (k, v)
  | cons entry entries ih =>
    unfold upsert
    by_cases same : entry.1 = k
    · rw [if_pos same, lookup_cons_ite, lookup_cons_ite, same]
      split <;> rfl
    · rw [if_neg same, lookup_cons_ite, lookup_cons_ite, ih]
      by_cases found : other = k
      · rw [if_pos found, if_pos found, if_neg fun here => same (here.symm.trans found)]
      · rw [if_neg found, if_neg found]

omit [BEq κ] [LawfulBEq κ] in
theorem mem_keys_upsert : other ∈ (upsert k v entries).map Prod.fst ↔
    other = k ∨ other ∈ entries.map Prod.fst := by
  induction entries with
  | nil => simp [upsert]
  | cons entry entries ih =>
    unfold upsert
    by_cases same : entry.1 = k
    · rw [if_pos same]
      simp [same]
    · rw [if_neg same, List.map_cons, List.mem_cons, ih, List.map_cons, List.mem_cons]
      tauto

theorem lookup_filter : (entries.filter fun entry => decide (entry.1 ≠ k)).lookup other =
    if other = k then none else entries.lookup other := by
  induction entries with
  | nil =>
    rw [List.filter_nil, List.lookup_nil]
    split <;> rfl
  | cons entry entries ih =>
    rw [List.filter_cons, lookup_cons_ite]
    by_cases same : entry.1 = k
    · rw [if_neg (by simp [same]), ih, same]
      split <;> rfl
    · rw [if_pos (by simp [same]), lookup_cons_ite, ih]
      by_cases found : other = k
      · rw [if_pos found, if_pos found, if_neg fun here => same (here.symm.trans found)]
      · rw [if_neg found, if_neg found]

omit [BEq κ] [LawfulBEq κ] in
theorem nodup_upsert (distinct : (entries.map Prod.fst).Nodup) :
    ((upsert k v entries).map Prod.fst).Nodup := by
  induction entries with
  | nil => exact List.nodup_singleton k
  | cons entry entries ih =>
    obtain ⟨absent, rest⟩ := List.nodup_cons.mp distinct
    unfold upsert
    by_cases same : entry.1 = k
    · rw [if_pos same, ← same]
      exact distinct
    rw [if_neg same]
    refine List.nodup_cons.mpr ⟨fun listed => ?_, ih rest⟩
    rcases mem_keys_upsert.mp listed with found | old
    · exact same found
    · exact absent old

theorem lookup_of_mem (distinct : (entries.map Prod.fst).Nodup) (listed : (k, v) ∈ entries) :
    entries.lookup k = some v := by
  induction entries with
  | nil => cases listed
  | cons entry entries ih =>
    obtain ⟨absent, rest⟩ := List.nodup_cons.mp distinct
    rw [lookup_cons_ite]
    rcases List.mem_cons.mp listed with rfl | later
    · exact if_pos rfl
    have apart : k ≠ entry.1 := by
      rintro rfl
      exact absent (List.mem_map.mpr ⟨_, later, rfl⟩)
    rw [if_neg apart]
    exact ih rest later

omit [DecidableEq κ] in
theorem lookup_of_absent (absent : k ∉ entries.map Prod.fst) : entries.lookup k = none := by
  rw [List.lookup_eq_none_iff]
  intro entry listed
  rw [bne_iff_ne]
  rintro rfl
  exact absent (List.mem_map.mpr ⟨entry, listed, rfl⟩)

end Upserts

section Totals

variable [DecidableEq κ] [BEq κ] [LawfulBEq κ] {k : κ} {v : Nat} {entries : List (κ × Nat)}

/-- `values().sum()`. -/
def total (entries : List (κ × Nat)) : Nat := (entries.map Prod.snd).sum

omit [DecidableEq κ] [BEq κ] [LawfulBEq κ] in
theorem total_cons (entry : κ × Nat) : total (entry :: entries) = entry.2 + total entries :=
  List.sum_cons

theorem total_upsert : total (upsert k v entries) + (entries.lookup k).getD 0 = total entries + v := by
  induction entries with
  | nil => exact Nat.add_comm _ _
  | cons entry entries ih =>
    unfold upsert
    by_cases same : entry.1 = k
    · rw [if_pos same, lookup_cons_ite, if_pos same.symm, total_cons, total_cons, Option.getD_some]
      omega
    · rw [if_neg same, lookup_cons_ite, if_neg fun found => same found.symm, total_cons, total_cons]
      omega

theorem total_filter (distinct : (entries.map Prod.fst).Nodup) :
    total (entries.filter fun entry => decide (entry.1 ≠ k)) + (entries.lookup k).getD 0 =
      total entries := by
  induction entries with
  | nil => rfl
  | cons entry entries ih =>
    obtain ⟨absent, rest⟩ := List.nodup_cons.mp distinct
    have onward := ih rest
    rw [List.filter_cons, lookup_cons_ite, total_cons]
    by_cases same : entry.1 = k
    · rw [lookup_of_absent (same ▸ absent), Option.getD_none] at onward
      rw [if_neg (by simp [same]), if_pos same.symm, Option.getD_some]
      omega
    · rw [if_pos (by simp [same]), if_neg fun found => same found.symm, total_cons]
      omega

end Totals

end Grotto.Base.Keyed
