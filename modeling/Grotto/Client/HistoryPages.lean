/- GID: Grotto/Client/HistoryPages
   digest: `history` read page by page, from the newest message of a room to the oldest. -/

import Grotto.Client.Machine
import Grotto.Client.Working

set_option autoImplicit false

namespace Grotto.Client.HistoryPages

open Protocol.Records
open Base.Program Base.Program.Local Base.Paging
open Library Tables Calls Effects
open Delivery Actions Machine Working

variable {mls : Mls}

/-- The calls of a user who reads a room's history to its beginning: each page ends before the first
message of the one read last, and an empty page ends them. -/
def readBack (room : RoomId) : Nat → Option UInt64 → Service mls (List (List HistoryRow))
  | 0, _ => Local.fail .exhausted
  | fuel + 1, before => do
      match ← history room before with
      | [] => pure []
      | first :: rest => do
          let earlier ← readBack room fuel (some (UInt64.ofNat first.sequence))
          pure ((first :: rest) :: earlier)

def roomRows (s : Store mls) (room : RoomId) : List HistoryRow :=
  s.authenticatedHistory.filter fun row => decide (row.room = room)

structure Sequenced (s : Store mls) (room : RoomId) : Prop where
  distinct : ((roomRows s room).map HistoryRow.sequence).Nodup
  stored : ∀ row ∈ roomRows s room, 1 ≤ row.sequence ∧ row.sequence ≤ i64Max

section Pages

variable {s : Store mls} {room : RoomId}

theorem historyPage_eq (sequenced : Sequenced s room) (before : Option Nat) :
    s.historyPage room before =
      lastRows 100 ((inOrder HistoryRow.sequence (roomRows s room)).filter
        (under HistoryRow.sequence before)) := by
  have chosen : (s.authenticatedHistory.filter fun row =>
      decide (row.room = room) && before.all fun bound => decide (row.sequence < bound)) =
      (roomRows s room).filter (under HistoryRow.sequence before) := by
    unfold roomRows
    rw [List.filter_filter]
    exact List.filter_congr fun row _ => Bool.and_comm _ _
  unfold Store.historyPage
  rw [chosen, descending_eq, inOrder_filter sequenced.distinct]
  exact sequenced.distinct.sublist (List.filter_sublist.map _)

theorem head_mem (sequenced : Sequenced s room) {before : Option Nat} {first : HistoryRow}
    {rest : List HistoryRow} (page : s.historyPage room before = first :: rest) :
    first ∈ roomRows s room := by
  have listed : first ∈ s.historyPage room before := by
    rw [page]
    exact List.mem_cons_self
  rw [historyPage_eq sequenced] at listed
  exact perm_inOrder.mem_iff.mp (List.mem_of_mem_filter (List.mem_of_mem_drop listed))

end Pages

section Reading

variable {here : Surroundings mls} {s : Session mls} {room : RoomId} {owner : Bool}

theorem returns_history (works : Works here) (stands : Stands owner s) {before : Option UInt64}
    (stored : ∀ sequence, before = some sequence → sequence.toNat ≤ i64Max) :
    (history room before : Service mls (List HistoryRow)).Returns here s fun page t =>
      page = s.store.historyPage room (before.map UInt64.toNat) ∧ Keeps s t ∧ Stands owner t := by
  refine (returns_call works stands).bind fun _ t called => ?_
  have bound : (bindBefore before : Service mls (Option Nat)).Returns here t
      fun bound u => bound = before.map UInt64.toNat ∧ u = t := by
    cases before with
    | none => exact returns_pure ⟨rfl, rfl⟩
    | some sequence =>
      have fits : (bindU64 sequence.toNat : Service mls Nat) = pure sequence.toNat :=
        if_pos (stored sequence rfl)
      dsimp only [bindBefore]
      rw [fits]
      exact returns_pure ⟨rfl, rfl⟩
  refine bound.bind fun _ u reached => ?_
  obtain ⟨rfl, rfl⟩ := reached
  refine returns_get (returns_pure ⟨?_, called⟩)
  rw [called.1.store]

/-- With fuel for one page more than there are rows to read, the calls end in an empty page. -/
theorem returns_readBack (works : Works here) (sequenced : Sequenced s.store room) (fuel : Nat)
    (before : Option UInt64) (stands : Stands owner s)
    (stored : ∀ sequence, before = some sequence → sequence.toNat ≤ i64Max)
    (enough : ((inOrder HistoryRow.sequence (roomRows s.store room)).filter
      (under HistoryRow.sequence (before.map UInt64.toNat))).length < fuel) :
    (readBack room fuel before : Service mls (List (List HistoryRow))).Returns here s fun pages t =>
      WalkBack HistoryRow.sequence 100 (inOrder HistoryRow.sequence (roomRows s.store room))
        (before.map UInt64.toNat) pages ∧ Keeps s t := by
  induction fuel generalizing s before with
  | zero => omega
  | succ fuel ih =>
    refine (returns_history works stands stored).bind fun page t read => ?_
    obtain ⟨rfl, keeps, standing⟩ := read
    cases page : s.store.historyPage room (before.map UInt64.toNat) with
    | nil =>
      rw [historyPage_eq sequenced] at page
      exact returns_pure ⟨.done page, keeps⟩
    | cons first rest =>
      have listed := (sequenced.stored first (head_mem sequenced page)).2
      rw [historyPage_eq sequenced] at page
      have shorter := length_filter_under (strict_inOrder sequenced.distinct) page
      have unwrapped : (UInt64.ofNat first.sequence).toNat = first.sequence :=
        UInt64.toNat_ofNat_of_lt' (lt_of_le_of_lt listed (by decide))
      have again := ih (s := t) (by rw [keeps.store]; exact sequenced)
        (some (UInt64.ofNat first.sequence)) standing
        (fun sequence same => by rw [← Option.some.inj same, unwrapped]; exact listed)
      rw [Option.map_some, unwrapped, keeps.store] at again
      refine (again (by omega)).bind fun earlier u reached => ?_
      exact returns_pure ⟨.next page reached.1, keeps.trans reached.2⟩

/-- Read back page by page, a room's history has every row of the room exactly once: no page has
more than a hundred rows, each is in increasing order of the sequences, and so are all of them put
together from the last page read to the first. Nothing that reads it changes a table. -/
theorem history_covers_room (works : Works here) (stands : Stands owner s)
    (sequenced : Sequenced s.store room) :
    (∀ fuel, (roomRows s.store room).length < fuel →
      ∃ pages t, readBack room fuel none here s = (.ok pages, t) ∧ t.store = s.store ∧
        (∀ page ∈ pages, page ≠ [] ∧ page.length ≤ 100 ∧
          page.Pairwise fun a b => a.sequence < b.sequence) ∧
        pages.reverse.flatten.Perm (roomRows s.store room) ∧
        pages.reverse.flatten.Pairwise fun a b => a.sequence < b.sequence) ∧
    ∀ (room : RoomId) (before : Option UInt64) (here : Surroundings mls) (s : Session mls),
      (history room before here s).2.store = s.store := by
  have strict := strict_inOrder sequenced.distinct
  refine ⟨fun fuel enough => ?_, fun room before here s => (ends_history here).store⟩
  have everything : (inOrder HistoryRow.sequence (roomRows s.store room)).filter
      (under HistoryRow.sequence none) = inOrder HistoryRow.sequence (roomRows s.store room) :=
    List.filter_eq_self.mpr fun _ _ => rfl
  have whole : ((inOrder HistoryRow.sequence (roomRows s.store room)).filter
      (under HistoryRow.sequence none)).length < fuel := by
    rw [everything, perm_inOrder.length_eq]
    exact enough
  obtain ⟨pages, t, read, walk, keeps⟩ := returns_readBack works sequenced fuel none stands
    nofun whole
  have joined := walk.flatten_reverse (by decide) strict
  rw [Option.map_none, everything] at joined
  refine ⟨pages, t, read, keeps.store, fun page fetched => walk.page_within strict fetched, ?_, ?_⟩
  · rw [joined]
    exact perm_inOrder
  · rw [joined]
    exact strict

/-- A room with three messages, stored in another order than they were sent in, beside a message of
another room. -/
def threeMessages : Store Cleartext.mls :=
  { Store.empty Cleartext.mls with authenticatedHistory := [
      ⟨sampleId 1, sampleRoom 9, 2, sampleUser 1, [2]⟩, ⟨sampleId 2, sampleRoom 8, 1, sampleUser 1, [9]⟩,
      ⟨sampleId 3, sampleRoom 9, 1, sampleUser 2, [1]⟩, ⟨sampleId 4, sampleRoom 9, 3, sampleUser 2, [3]⟩] }

theorem history_covers_room_three : ∃ pages t,
    readBack (sampleRoom 9) 4 none calm (opened threeMessages) = (.ok pages, t) ∧
      pages.reverse.flatten.Perm (roomRows threeMessages (sampleRoom 9)) := by
  have works : Works calm := fun _ => rfl
  have stands : Stands false (opened threeMessages) := ⟨rfl, rfl⟩
  have sequenced : Sequenced (opened threeMessages).store (sampleRoom 9) := ⟨by decide, by decide⟩
  obtain ⟨pages, t, read, -, -, whole, -⟩ :=
    (history_covers_room works stands sequenced).1 4 (by decide)
  exact ⟨pages, t, read, whole⟩

end Reading

end Grotto.Client.HistoryPages
