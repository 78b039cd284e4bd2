/- GID: Grotto/Base/Stream
   digest: Readers that hand out a stream piece by piece, chained readers, buffers filled by repeated
   reads, and the readers that hand out given data. -/

import Mathlib.Algebra.Order.Ring.Nat
import Mathlib.Data.List.Basic

set_option autoImplicit false

namespace Grotto.Base.Stream

/-- A reader fills a buffer of some size in part; an empty answer to a buffer with room is the end. -/
class Reader (σ : Type) (ε β : outParam Type) where
  read : σ → Nat → Except ε (List β) × σ
  /-- A bound on the answers before the end. -/
  pending : σ → Nat
  progress : ∀ s n, 0 < n → (read s n).1 ≠ .ok [] → pending (read s n).2 < pending s

open Reader

variable {σ ε β : Type}

section Arrivals

abbrev Chunk (β : Type) : Type := {bytes : List β // bytes ≠ []}

inductive Arrival (ε β : Type)
  | chunk (bytes : Chunk β)
  | failure (error : ε)

def readArrivals : List (Arrival ε β) → Nat → Except ε (List β) × List (Arrival ε β)
  | [], _ => (.ok [], [])
  | .failure e :: rest, _ => (.error e, rest)
  | .chunk bytes :: rest, n =>
    (.ok (bytes.1.take n),
      if more : bytes.1.drop n = [] then rest else .chunk ⟨bytes.1.drop n, more⟩ :: rest)

def arrivalSize : Arrival ε β → Nat
  | .chunk bytes => bytes.1.length
  | .failure _ => 1

def arrivalsSize (arrivals : List (Arrival ε β)) : Nat := (arrivals.map arrivalSize).sum

theorem readArrivals_progress (arrivals : List (Arrival ε β)) (n : Nat) (room : 0 < n)
    (found : (readArrivals arrivals n).1 ≠ .ok []) :
    arrivalsSize (readArrivals arrivals n).2 < arrivalsSize arrivals := by
  cases arrivals with
  | nil => exact absurd rfl found
  | cons arrival rest =>
    cases arrival with
    | failure e =>
      change arrivalsSize rest < 1 + arrivalsSize rest
      omega
    | chunk bytes =>
      have some : 0 < bytes.1.length := List.length_pos_iff.mpr bytes.2
      change arrivalsSize (dite _ _ _) < bytes.1.length + arrivalsSize rest
      split
      · omega
      · change (bytes.1.drop n).length + arrivalsSize rest < _
        rw [List.length_drop]
        omega

instance : Reader (List (Arrival ε β)) ε β where
  read := readArrivals
  pending := arrivalsSize
  progress := readArrivals_progress

end Arrivals

section Chains

structure Chain (σ β : Type) where
  first : List β
  doneFirst : Bool
  second : σ

variable [Reader σ ε β]

def readChain (c : Chain σ β) (n : Nat) : Except ε (List β) × Chain σ β :=
  if c.doneFirst ∨ c.first.take n = [] then
    ((read c.second n).1, { c with doneFirst := true, second := (read c.second n).2 })
  else (.ok (c.first.take n), { c with first := c.first.drop n })

instance : Reader (Chain σ β) ε β where
  read := readChain
  pending c := c.first.length + pending c.second
  progress := by
    intro c n room found
    unfold readChain at found ⊢
    split
    · rename_i done
      rw [if_pos done] at found
      exact Nat.add_lt_add_left (progress c.second n room found) _
    · rename_i undone
      have some : c.first ≠ [] := fun none => undone (.inr (by rw [none, List.take_nil]))
      have length := List.length_pos_iff.mpr some
      refine Nat.add_lt_add_right ?_ _
      rw [List.length_drop]
      omega

end Chains

section Filling

variable [Reader σ ε β]

/-- How filling a buffer ends: with all of it, at the end of the stream, or with a failure. -/
inductive Fill (ε β : Type)
  | full (buffer : List β)
  | short (buffer : List β)
  | failed (error : ε)

def fill (retry : ε → Bool) (need : Nat) (s : σ) (buffer : List β) : Fill ε β × σ :=
  if _room : buffer.length < need then
    match _answer : read s (need - buffer.length) with
    | (.ok [], s') => (.short buffer, s')
    | (.ok (b :: bytes), s') => fill retry need s' (buffer ++ b :: bytes)
    | (.error e, s') => if retry e then fill retry need s' buffer else (.failed e, s')
  else (.full buffer, s)
termination_by pending s
decreasing_by
  · have less := progress s (need - buffer.length) (by omega) (by rw [_answer]; intro none; cases none)
    rwa [_answer] at less
  · have less := progress s (need - buffer.length) (by omega) (by rw [_answer]; intro none; cases none)
    rwa [_answer] at less

end Filling

section Deliveries

variable [Reader σ ε β] {front back : List β}

/-- A read from `R` hands out a part of the data, nothing only at its end, and leaves the rest to `S`. -/
def Hands (R S : σ → List β → Prop) : Prop :=
  ∀ s data n, R s data → 0 < n → ∃ front back s', data = front ++ back ∧ read s n = (.ok front, s') ∧
    S s' back ∧ front.length ≤ n ∧ (front = [] → back = [])

def filled (need : Nat) (buffer data : List β) : Fill ε β :=
  if need ≤ buffer.length + data.length then .full (buffer ++ data.take (need - buffer.length))
  else .short (buffer ++ data)

variable {R S : σ → List β → Prop} {retry : ε → Bool} {need : Nat} {s : σ} {buffer data : List β}

theorem filled_full (full : buffer.length = need) :
    (filled need buffer data : Fill ε β) = .full buffer := by
  unfold filled
  rw [if_pos (by omega), full, Nat.sub_self, List.take_zero, List.append_nil]

theorem filled_append (fits : (buffer ++ front).length ≤ need) :
    (filled need (buffer ++ front) back : Fill ε β) = filled need buffer (front ++ back) := by
  rw [List.length_append] at fits
  have rest : need - buffer.length - front.length = need - (buffer.length + front.length) := by omega
  have whole : front.take (need - buffer.length) = front := List.take_of_length_le (by omega)
  unfold filled
  rw [List.length_append, List.length_append, Nat.add_assoc]
  split
  · rw [List.take_append, whole, List.append_assoc, rest]
  · rw [List.append_assoc]

theorem filled_end (room : buffer.length < need) : (filled need buffer [] : Fill ε β) = .short buffer := by
  unfold filled
  rw [if_neg (by rw [List.length_nil]; omega), List.append_nil]

theorem drop_filled (fits : (buffer ++ front).length ≤ need) :
    (front ++ back).drop (need - buffer.length) = back.drop (need - (buffer ++ front).length) := by
  rw [List.length_append] at fits ⊢
  rw [List.drop_append, List.drop_eq_nil_of_le (by omega), List.nil_append, Nat.sub_sub]

theorem fill_step (hands : Hands R S) (room : buffer.length < need) (here : R s data) :
    ∃ front back s', data = front ++ back ∧ S s' back ∧ buffer.length + front.length ≤ need ∧
      (front = [] ∧ back = [] ∧ fill retry need s buffer = (.short buffer, s') ∨
        front ≠ [] ∧ fill retry need s buffer = fill retry need s' (buffer ++ front)) := by
  obtain ⟨front, back, s', split, answer, there, within, last⟩ :=
    hands s data (need - buffer.length) here (by omega)
  refine ⟨front, back, s', split, there, by omega, ?_⟩
  rw [fill, dif_pos room]
  cases front with
  | nil =>
    refine .inl ⟨rfl, last rfl, ?_⟩
    split
    · rename_i again
      cases answer.symm.trans again
      rfl
    · rename_i again
      cases answer.symm.trans again
    · rename_i again
      cases answer.symm.trans again
  | cons b bytes =>
    refine .inr ⟨List.cons_ne_nil b bytes, ?_⟩
    split
    · rename_i again
      cases answer.symm.trans again
    · rename_i again
      cases answer.symm.trans again
      rfl
    · rename_i again
      cases answer.symm.trans again

theorem fill_delivers (keeps : Hands S S) (fits : buffer.length ≤ need) (here : S s data) :
    ∃ s', fill retry need s buffer = (filled need buffer data, s') ∧
      S s' (data.drop (need - buffer.length)) := by
  -- each read that is not the last hands out some of the data
  induction size : data.length using Nat.strongRecOn generalizing s buffer data with
  | _ count ih =>
    rcases Nat.lt_or_eq_of_le fits with room | full
    · obtain ⟨front, back, s', rfl, there, within, ⟨rfl, rfl, ended⟩ | ⟨some, onward⟩⟩ :=
        @fill_step _ _ _ _ _ _ retry _ _ _ _ keeps room here
      · exact ⟨s', by rw [ended, List.append_nil, filled_end room], by rwa [List.append_nil, List.drop_nil]⟩
      have shorter : back.length < count := by
        have length := List.length_pos_iff.mpr some
        rw [List.length_append] at size
        omega
      have longer : (buffer ++ front).length ≤ need := by rwa [List.length_append]
      obtain ⟨last, result, left⟩ := ih back.length shorter longer there rfl
      exact ⟨last, by rw [onward, result, filled_append longer], by rwa [drop_filled longer]⟩
    · refine ⟨s, ?_, ?_⟩
      · rw [fill, dif_neg (by omega), filled_full full]
      · rwa [full, Nat.sub_self, List.drop_zero]

theorem fill_begins (hands : Hands R S) (keeps : Hands S S) (room : buffer.length < need)
    (here : R s data) : ∃ s', fill retry need s buffer = (filled need buffer data, s') ∧
      S s' (data.drop (need - buffer.length)) := by
  obtain ⟨front, back, s', rfl, there, within, ⟨rfl, rfl, ended⟩ | ⟨some, onward⟩⟩ :=
    @fill_step _ _ _ _ _ _ retry _ _ _ _ hands room here
  · exact ⟨s', by rw [ended, List.append_nil, filled_end room], by rwa [List.append_nil, List.drop_nil]⟩
  · have longer : (buffer ++ front).length ≤ need := by rwa [List.length_append]
    obtain ⟨last, result, left⟩ := @fill_delivers _ _ _ _ _ retry _ _ _ _ keeps longer there
    exact ⟨last, by rw [onward, result, filled_append longer], by rwa [drop_filled longer]⟩

end Deliveries

section Instances

def Intact (arrivals : List (Arrival ε β)) (data : List β) : Prop :=
  ∃ chunks : List (Chunk β), arrivals = chunks.map .chunk ∧ data = (chunks.map Subtype.val).flatten

theorem hands_intact : Hands (@Intact ε β) Intact := by
  rintro arrivals data n ⟨chunks, rfl, rfl⟩ room
  cases chunks with
  | nil => exact ⟨[], [], [], rfl, rfl, ⟨[], rfl, rfl⟩, Nat.zero_le n, fun _ => rfl⟩
  | cons chunk chunks =>
    have some : chunk.1.take n ≠ [] := by
      rw [Ne, List.take_eq_nil_iff]
      exact not_or.mpr ⟨by omega, chunk.2⟩
    refine ⟨chunk.1.take n, chunk.1.drop n ++ (chunks.map Subtype.val).flatten, _, ?_, rfl, ?_,
      List.length_take_le n _, fun none => absurd none some⟩
    · rw [← List.append_assoc, List.take_append_drop]
      rfl
    by_cases last : chunk.1.drop n = []
    · rw [dif_pos last, last]
      exact ⟨chunks, rfl, rfl⟩
    · rw [dif_neg last]
      exact ⟨⟨_, last⟩ :: chunks, rfl, rfl⟩

variable [Reader σ ε β] {S : σ → List β → Prop}

def Fresh (S : σ → List β → Prop) (c : Chain σ β) (data : List β) : Prop :=
  ∃ b rest, c.first = [b] ∧ c.doneFirst = false ∧ data = b :: rest ∧ S c.second rest

def Drained (S : σ → List β → Prop) (c : Chain σ β) (data : List β) : Prop :=
  c.first = [] ∧ S c.second data

theorem hands_drained (keeps : Hands S S) : Hands (Drained S) (Drained S) := by
  rintro c data n ⟨empty, here⟩ room
  obtain ⟨front, back, s', split, answer, there, within, last⟩ := keeps c.second data n here room
  refine ⟨front, back, { c with doneFirst := true, second := s' }, split, ?_, ⟨empty, there⟩, within,
    last⟩
  change readChain c n = _
  unfold readChain
  rw [if_pos (.inr (by rw [empty, List.take_nil])), answer]

theorem hands_fresh : Hands (Fresh S) (Drained S) := by
  rintro c data n ⟨b, rest, one, undone, rfl, here⟩ room
  have taken : c.first.take n = [b] := by
    rw [one]
    exact List.take_of_length_le room
  have dropped : c.first.drop n = [] := by
    rw [one]
    exact List.drop_eq_nil_of_le room
  refine ⟨[b], rest, { c with first := c.first.drop n }, rfl, ?_, ⟨dropped, here⟩, room,
    fun none => absurd none (List.cons_ne_nil b [])⟩
  change readChain c n = _
  unfold readChain
  rw [if_neg (by rw [undone, taken]; simp), taken]

end Instances

section Calls

variable {α τ : Type}

def calls (f : σ → α × σ) : Nat → σ → List α × σ
  | 0, s => ([], s)
  | n + 1, s => ((f s).1 :: (calls f n (f s).2).1, (calls f n (f s).2).2)

theorem calls_simulate {f : σ → α × σ} {g : τ → α × τ} {R : σ → τ → Prop}
    (simulates : ∀ s t, R s t → (f s).1 = (g t).1 ∧ R (f s).2 (g t).2) (n : Nat) {s : σ} {t : τ}
    (here : R s t) : (calls f n s).1 = (calls g n t).1 ∧ R (calls f n s).2 (calls g n t).2 := by
  induction n generalizing s t with
  | zero => exact ⟨rfl, here⟩
  | succ n ih =>
    obtain ⟨answer, next⟩ := simulates s t here
    obtain ⟨answers, last⟩ := ih next
    refine ⟨?_, last⟩
    unfold calls
    rw [answer, answers]

end Calls

end Grotto.Base.Stream
