/- GID: Grotto/Base/Paging
   digest: Pages cut by a count and a size budget, and walks over a growing sorted view. -/

import Mathlib.Algebra.Order.BigOperators.Group.List
import Mathlib.Algebra.Order.Ring.Nat
import Mathlib.Data.List.Sort
import Mathlib.Order.Basic

set_option autoImplicit false

namespace Grotto.Base.Paging

section Cut

variable {ρ : Type} (limit budget : Nat) (size : ρ → Nat)

def cut : Nat → Nat → List ρ → List ρ
  | _, _, [] => []
  | count, used, row :: rows =>
    if count = limit ∨ used + size row > budget then []
    else row :: cut (count + 1) (used + size row) rows

theorem cut_prefix (count used : Nat) (rows : List ρ) :
    cut limit budget size count used rows <+: rows := by
  induction rows generalizing count used with
  | nil => exact List.prefix_refl _
  | cons row rows ih =>
    unfold cut
    split
    · exact List.nil_prefix
    · exact (List.cons_prefix_cons).mpr ⟨rfl, ih _ _⟩

theorem cut_length {count : Nat} (room : count ≤ limit) (used : Nat) (rows : List ρ) :
    count + (cut limit budget size count used rows).length ≤ limit := by
  induction rows generalizing count used with
  | nil => simpa [cut] using room
  | cons row rows ih =>
    unfold cut
    split
    · simpa using room
    · rename_i fits
      have rest := @ih (count + 1) (by omega) (used + size row)
      simp only [List.length_cons]
      omega

theorem cut_size {used : Nat} (room : used ≤ budget) (count : Nat) (rows : List ρ) :
    used + ((cut limit budget size count used rows).map size).sum ≤ budget := by
  induction rows generalizing count used with
  | nil => simpa [cut] using room
  | cons row rows ih =>
    unfold cut
    split
    · simpa using room
    · rename_i fits
      have rest := @ih (used + size row) (by omega) (count + 1)
      simp only [List.map_cons, List.sum_cons]
      omega

theorem cut_ne_nil {row : ρ} {rows : List ρ} (positive : 0 < limit) (fits : size row ≤ budget) :
    cut limit budget size 0 0 (row :: rows) ≠ [] := by
  unfold cut
  rw [if_neg (by omega)]
  exact List.cons_ne_nil _ _

theorem take_prefix_cut {count used n : Nat} {rows : List ρ} (few : count + n ≤ limit)
    (small : used + ((rows.take n).map size).sum ≤ budget) :
    rows.take n <+: cut limit budget size count used rows := by
  induction rows generalizing count used n with
  | nil => simp [cut]
  | cons row rows ih =>
    cases n with
    | zero => exact List.nil_prefix
    | succ n =>
      simp only [List.take_succ_cons, List.map_cons, List.sum_cons] at small
      unfold cut
      rw [if_neg (by omega), List.take_succ_cons]
      exact List.cons_prefix_cons.mpr ⟨rfl, ih (by omega) (by omega)⟩

theorem cut_take {count n : Nat} (room : count ≤ limit) (enough : limit < count + n) (used : Nat)
    (rows : List ρ) :
    cut limit budget size count used (rows.take n) = cut limit budget size count used rows := by
  induction rows generalizing count n used with
  | nil => simp
  | cons row rows ih =>
    obtain ⟨m, rfl⟩ : ∃ m, n = m + 1 := ⟨n - 1, by omega⟩
    rw [List.take_succ_cons]
    unfold cut
    split
    · rfl
    · rename_i fits
      exact congrArg (row :: ·) (ih (by omega) (by omega) _)

end Cut

section Walk

variable {ρ κ σ : Type} [LinearOrder κ] (key : ρ → κ) {cursor : Option κ} {got : List ρ}

def beyond (cursor : Option κ) (row : ρ) : Bool := cursor.all fun c => c < key row

/-- A page of the rows beyond a cursor: a front part, nonempty unless it is the last page, which
holds everything that is left. -/
structure IsPage (rows : List ρ) (cursor : Option κ) (page : List ρ) (more : Bool) : Prop where
  front : page <+: rows.filter (beyond key cursor)
  whole : more = false → page = rows.filter (beyond key cursor)
  partly : more = true → page ≠ [] ∧ page ≠ rows.filter (beyond key cursor)

/-- A walk fetches pages at states the system moves through, each beyond the last row it got. -/
inductive Walk (moves : σ → σ → Prop) (view : σ → List ρ) :
    Option κ → σ → List ρ → σ → Prop
  | last {cursor : Option κ} {s t : σ} {page : List ρ} (moved : moves s t)
      (fetched : IsPage key (view t) cursor page false) : Walk moves view cursor s page t
  | next {cursor : Option κ} {s t u : σ} {page rest : List ρ} {row : ρ} (moved : moves s t)
      (fetched : IsPage key (view t) cursor page true) (final : page.getLast? = some row)
      (walk : Walk moves view (some (key row)) t rest u) :
      Walk moves view cursor s (page ++ rest) u

variable {key}

private theorem le_getLast {page : List ρ} {row r : ρ}
    (sorted : page.Pairwise fun a b => key a < key b) (final : page.getLast? = some row)
    (member : r ∈ page) : key r ≤ key row := by
  obtain ⟨front, rfl⟩ : ∃ front, page = front ++ [row] :=
    ⟨page.dropLast, (List.dropLast_append_getLast? row final).symm⟩
  rcases List.mem_append.mp member with early | last
  · exact le_of_lt ((List.pairwise_append.mp sorted).2.2 r early row (List.mem_singleton_self _))
  · rw [List.mem_singleton.mp last]

theorem filter_beyond_getLast {page tail : List ρ} {row : ρ}
    (sorted : (page ++ tail).Pairwise fun a b => key a < key b) (final : page.getLast? = some row) :
    (page ++ tail).filter (beyond key (some (key row))) = tail := by
  obtain ⟨inPage, inTail, across⟩ := List.pairwise_append.mp sorted
  have before : page.filter (beyond key (some (key row))) = [] := by
    rw [List.filter_eq_nil_iff]
    intro r member
    have small := le_getLast inPage final member
    simpa [beyond] using small
  have after : tail.filter (beyond key (some (key row))) = tail := by
    rw [List.filter_eq_self]
    intro r member
    simpa [beyond] using across row (List.mem_of_getLast? final) r member
  rw [List.filter_append, before, after, List.nil_append]

theorem filter_beyond_of_beyond {rows : List ρ} {row : ρ} (past : beyond key cursor row = true) :
    rows.filter (beyond key (some (key row))) =
      (rows.filter (beyond key cursor)).filter (beyond key (some (key row))) := by
  rw [List.filter_filter]
  refine List.filter_congr fun r _ => ?_
  cases cursor with
  | none => simp [beyond]
  | some c =>
    simp only [beyond, Option.all_some, decide_eq_true_eq] at past ⊢
    by_cases later : key row < key r
    · simp [later, past.trans later]
    · simp [later]

theorem IsPage.shrinks {rows page : List ρ} {more : Bool} {row : ρ}
    (fetched : IsPage key rows cursor page more) (final : page.getLast? = some row) :
    (rows.filter (beyond key (some (key row)))).length <
      (rows.filter (beyond key cursor)).length := by
  have member := fetched.front.subset (List.mem_of_getLast? final)
  rw [filter_beyond_of_beyond (List.mem_filter.mp member).2]
  refine List.length_filter_lt_length_iff_exists.mpr ⟨row, member, ?_⟩
  simp [beyond]

variable {moves : σ → σ → Prop} {view : σ → List ρ}

theorem Walk.view_prefix (grow : ∀ s t, moves s t → view s <+: view t)
    {s t : σ} (walk : Walk key moves view cursor s got t) : view s <+: view t := by
  induction walk with
  | last moved fetched => exact grow _ _ moved
  | next moved fetched final walk ih => exact (grow _ _ moved).trans ih

theorem Walk.eq_filter (sorted : ∀ s, (view s).Pairwise fun a b => key a < key b)
    (grow : ∀ s t, moves s t → view s <+: view t) {s t : σ}
    (walk : Walk key moves view cursor s got t) : got = (view t).filter (beyond key cursor) := by
  induction walk with
  | last moved fetched => exact fetched.whole rfl
  | @next cursor s t u page rest row moved fetched final walk ih =>
    obtain ⟨tail, split⟩ := fetched.front
    obtain ⟨extra, grown⟩ := walk.view_prefix grow
    have past : beyond key cursor row = true := by
      have member : row ∈ (view t).filter (beyond key cursor) := by
        rw [← split]
        exact List.mem_append_left _ (List.mem_of_getLast? final)
      exact (List.mem_filter.mp member).2
    have whole : (view u).filter (beyond key cursor) =
        page ++ (tail ++ extra.filter (beyond key cursor)) := by
      rw [← grown, List.filter_append, ← split, List.append_assoc]
    have order : (page ++ (tail ++ extra.filter (beyond key cursor))).Pairwise
        fun a b => key a < key b := by
      rw [← whole]
      exact (sorted u).filter _
    rw [ih, filter_beyond_of_beyond past, whole, filter_beyond_getLast order final]

/-- Over a view that may grow anywhere, a walk returns rows in strictly increasing order and
misses none that was there when it began. -/
theorem Walk.covers (sorted : ∀ s, (view s).Pairwise fun a b => key a < key b)
    (grow : ∀ s t, moves s t → view s ⊆ view t) {s t : σ}
    (walk : Walk key moves view cursor s got t) :
    got.Pairwise (fun a b => key a < key b) ∧ (∀ r ∈ got, beyond key cursor r = true) ∧
      (∀ r ∈ view s, beyond key cursor r = true → r ∈ got) ∧ (∀ r ∈ got, r ∈ view t) := by
  have reach : ∀ {cursor : Option κ} {s t : σ} {got : List ρ},
      Walk key moves view cursor s got t → view s ⊆ view t := by
    intro cursor s t got walk
    induction walk with
    | last moved fetched => exact grow _ _ moved
    | next moved fetched final walk ih => exact fun r member => ih (grow _ _ moved member)
  induction walk with
  | @last cursor s t page moved fetched =>
    have whole := fetched.whole rfl
    subst whole
    refine ⟨(sorted t).filter _, fun r member => (List.mem_filter.mp member).2, ?_, ?_⟩
    · exact fun r member past => List.mem_filter.mpr ⟨grow _ _ moved member, past⟩
    · exact fun r member => (List.mem_filter.mp member).1
  | @next cursor s t u page rest row moved fetched final walk ih =>
    obtain ⟨restSorted, restBeyond, restAll, restIn⟩ := ih
    obtain ⟨tail, split⟩ := fetched.front
    have order : (page ++ tail).Pairwise fun a b => key a < key b := by
      rw [split]
      exact (sorted t).filter _
    have inPage : ∀ r ∈ page, r ∈ view t ∧ beyond key cursor r = true := by
      intro r member
      refine List.mem_filter.mp ?_
      rw [← split]
      exact List.mem_append_left _ member
    have rowPast := (inPage row (List.mem_of_getLast? final)).2
    have beyondRow : ∀ r, beyond key (some (key row)) r = true → key row < key r := by
      intro r past
      simpa [beyond] using past
    have pageSorted := (List.pairwise_append.mp order).1
    refine ⟨?_, ?_, ?_, ?_⟩
    · refine List.pairwise_append.mpr ⟨pageSorted, restSorted, fun a early b late => ?_⟩
      exact lt_of_le_of_lt (le_getLast pageSorted final early) (beyondRow b (restBeyond b late))
    · intro r member
      rcases List.mem_append.mp member with early | late
      · exact (inPage r early).2
      have later := beyondRow r (restBeyond r late)
      cases cursor with
      | none => rfl
      | some c =>
        simp only [beyond, Option.all_some, decide_eq_true_eq] at rowPast ⊢
        exact rowPast.trans later
    · intro r member past
      have present : r ∈ page ++ tail := by
        rw [split]
        exact List.mem_filter.mpr ⟨grow _ _ moved member, past⟩
      rcases List.mem_append.mp present with early | late
      · exact List.mem_append_left _ early
      · have later := (List.pairwise_append.mp order).2.2 row (List.mem_of_getLast? final) r late
        exact List.mem_append_right _
          (restAll r (grow _ _ moved member) (by simpa [beyond] using later))
    · intro r member
      rcases List.mem_append.mp member with early | late
      · exact reach walk (inPage r early).1
      · exact restIn r late

end Walk

section Backward

variable {ρ κ : Type} [LinearOrder κ] (key : ρ → κ) (limit : Nat)

def under (bound : Option κ) (row : ρ) : Bool := bound.all fun b => key row < b

def lastRows (rows : List ρ) : List ρ := rows.drop (rows.length - limit)

/-- A walk back fetches the last rows below the first one it has, until there are none. -/
inductive WalkBack (rows : List ρ) : Option κ → List (List ρ) → Prop
  | done {bound : Option κ} (empty : lastRows limit (rows.filter (under key bound)) = []) :
      WalkBack rows bound []
  | next {bound : Option κ} {row : ρ} {page : List ρ} {pages : List (List ρ)}
      (fetched : lastRows limit (rows.filter (under key bound)) = row :: page)
      (walk : WalkBack rows (some (key row)) pages) : WalkBack rows bound ((row :: page) :: pages)

variable {key limit} {rows : List ρ} {bound : Option κ} {row : ρ} {page : List ρ}

theorem length_lastRows (rows : List ρ) : (lastRows limit rows).length ≤ limit := by
  unfold lastRows
  rw [List.length_drop]
  omega

theorem rows_eq_append_lastRows (limit : Nat) (rows : List ρ) :
    rows = rows.take (rows.length - limit) ++ lastRows limit rows :=
  (List.take_append_drop _ _).symm

theorem eq_nil_of_lastRows (positive : 0 < limit) (empty : lastRows limit rows = []) : rows = [] := by
  unfold lastRows at empty
  rw [List.drop_eq_nil_iff] at empty
  exact List.eq_nil_of_length_eq_zero (by omega)

theorem filter_under_head (sorted : rows.Pairwise fun a b => key a < key b)
    (fetched : lastRows limit (rows.filter (under key bound)) = row :: page) :
    rows.filter (under key bound) = rows.filter (under key (some (key row))) ++ row :: page := by
  have split := rows_eq_append_lastRows limit (rows.filter (under key bound))
  rw [fetched] at split
  generalize (rows.filter (under key bound)).take _ = front at split
  have order := sorted.filter (under key bound)
  rw [split] at order
  obtain ⟨-, later, across⟩ := List.pairwise_append.mp order
  have member : row ∈ rows.filter (under key bound) := by
    rw [split]
    exact List.mem_append_right _ List.mem_cons_self
  have inside := (List.mem_filter.mp member).2
  -- The smaller bound filters what the larger one has left.
  have narrowed : rows.filter (under key (some (key row))) =
      (rows.filter (under key bound)).filter (under key (some (key row))) := by
    rw [List.filter_filter]
    refine List.filter_congr fun r _ => ?_
    cases bound with
    | none => simp [under]
    | some b =>
      simp only [under, Option.all_some, decide_eq_true_eq] at inside ⊢
      by_cases early : key r < key row
      · simp [early, early.trans inside]
      · simp [early]
  have kept : front.filter (under key (some (key row))) = front := by
    refine List.filter_eq_self.mpr fun r early => ?_
    simpa [under] using across r early row List.mem_cons_self
  have dropped : (row :: page).filter (under key (some (key row))) = [] := by
    refine List.filter_eq_nil_iff.mpr fun r listed => ?_
    rcases List.mem_cons.mp listed with rfl | after
    · simp [under]
    · simpa [under] using le_of_lt ((List.pairwise_cons.mp later).1 r after)
  rw [narrowed, split, List.filter_append, kept, dropped, List.append_nil]

theorem WalkBack.flatten_reverse (positive : 0 < limit)
    (sorted : rows.Pairwise fun a b => key a < key b) {pages : List (List ρ)}
    (walk : WalkBack key limit rows bound pages) :
    pages.reverse.flatten = rows.filter (under key bound) := by
  induction walk with
  | done empty =>
    rw [eq_nil_of_lastRows positive empty]
    rfl
  | next fetched _ ih =>
    rw [List.reverse_cons, List.flatten_append, ih, filter_under_head sorted fetched,
      List.flatten_singleton]

theorem WalkBack.page_within (sorted : rows.Pairwise fun a b => key a < key b) {pages : List (List ρ)}
    (walk : WalkBack key limit rows bound pages) {page : List ρ} (fetched : page ∈ pages) :
    page ≠ [] ∧ page.length ≤ limit ∧ page.Pairwise fun a b => key a < key b := by
  induction walk with
  | done _ => cases fetched
  | @next bound row first pages taken _ ih =>
    rcases List.mem_cons.mp fetched with rfl | later
    · refine ⟨List.cons_ne_nil _ _, ?_, ?_⟩
      · rw [← taken]
        exact length_lastRows _
      · rw [← taken]
        exact (sorted.filter _).sublist (List.drop_sublist _ _)
    · exact ih later

theorem length_filter_under (sorted : rows.Pairwise fun a b => key a < key b)
    (fetched : lastRows limit (rows.filter (under key bound)) = row :: page) :
    (rows.filter (under key (some (key row)))).length < (rows.filter (under key bound)).length := by
  rw [filter_under_head sorted fetched, List.length_append, List.length_cons]
  omega

end Backward

section Sorting

variable {ρ κ : Type} [LinearOrder κ] (key : ρ → κ)

def inOrder (rows : List ρ) : List ρ := rows.insertionSort fun a b => key a ≤ key b

/-- The last rows as a query selects them: in descending order, cut, and turned around. -/
def descending (limit : Nat) (rows : List ρ) : List ρ :=
  ((rows.reverse.insertionSort fun a b => key b ≤ key a).take limit).reverse

variable {key} {rows : List ρ}

theorem strict_of_distinct (distinct : (rows.map key).Nodup)
    (sorted : rows.Pairwise fun a b => key a ≤ key b) : rows.Pairwise fun a b => key a < key b := by
  have apart : rows.Pairwise fun a b => key a ≠ key b := List.pairwise_map.mp distinct
  exact (sorted.and apart).imp fun both => lt_of_le_of_ne both.1 both.2

theorem pairwise_ascending (rows : List ρ) :
    (rows.insertionSort fun a b => key a ≤ key b).Pairwise fun a b => key a ≤ key b := by
  have total : Std.Total fun a b : ρ => key a ≤ key b := ⟨fun a b => le_total (key a) (key b)⟩
  have trans : IsTrans ρ fun a b => key a ≤ key b := ⟨fun _ _ _ first second => first.trans second⟩
  exact List.pairwise_insertionSort _ rows

theorem pairwise_descending (rows : List ρ) :
    (rows.insertionSort fun a b => key b ≤ key a).Pairwise fun a b => key b ≤ key a :=
  @pairwise_ascending ρ κᵒᵈ _ (fun row => OrderDual.toDual (key row)) rows

theorem perm_inOrder : (inOrder key rows).Perm rows := List.perm_insertionSort _ _

theorem strict_inOrder (distinct : (rows.map key).Nodup) :
    (inOrder key rows).Pairwise fun a b => key a < key b :=
  strict_of_distinct ((perm_inOrder.map key).nodup_iff.mpr distinct) (pairwise_ascending rows)

theorem eq_inOrder {others : List ρ} (sorted : others.Pairwise fun a b => key a < key b)
    (same : others.Perm rows) (distinct : (rows.map key).Nodup) : others = inOrder key rows := by
  refine List.Perm.eq_of_pairwise (fun a b _ _ less more => ?_) sorted (strict_inOrder distinct)
    (same.trans perm_inOrder.symm)
  exact absurd (less.trans more) (lt_irrefl _)

theorem inOrder_filter (distinct : (rows.map key).Nodup) (p : ρ → Bool) :
    inOrder key (rows.filter p) = (inOrder key rows).filter p := by
  refine (eq_inOrder ((strict_inOrder distinct).filter p) (perm_inOrder.filter p) ?_).symm
  exact distinct.sublist (List.filter_sublist.map _)

theorem descending_eq {limit : Nat} (distinct : (rows.map key).Nodup) :
    descending key limit rows = lastRows limit (inOrder key rows) := by
  have same := List.perm_insertionSort (fun a b : ρ => key b ≤ key a) rows.reverse
  have sorted := @pairwise_descending ρ κ _ key rows.reverse
  unfold descending
  generalize (rows.reverse.insertionSort fun a b => key b ≤ key a) = down at same sorted
  have permuted : down.reverse.Perm rows :=
    (List.reverse_perm down).trans (same.trans (List.reverse_perm rows))
  have up : down.reverse.Pairwise fun a b => key a < key b :=
    strict_of_distinct ((permuted.map key).nodup_iff.mpr distinct) (List.pairwise_reverse.mpr sorted)
  unfold lastRows
  rw [← eq_inOrder up permuted distinct, List.reverse_take, List.length_reverse]

end Sorting

end Grotto.Base.Paging
