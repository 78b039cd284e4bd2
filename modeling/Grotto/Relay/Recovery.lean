/- GID: Grotto/Relay/Recovery
   digest: Walks over the paged reads lose and repeat nothing under interleaved calls. -/

import Grotto.Relay.Log
import Grotto.Relay.Pages
import Mathlib.Data.List.Forall2

set_option autoImplicit false

namespace Grotto.Relay.Recovery

open Format.Combinators
open Format.Postcard (u64 size_u64 size_u64_le)
open Base.Paging
open Protocol.Records Protocol.Wire Protocol.Transcripts Protocol.Sizes
open Storage Deliver Steps Invariant
open Log Pages

/-- A walk of one user over a paged read. Any calls may run before each fetch, and each fetch
continues at the position of the last value it got. -/
inductive FetchWalk (sha256 : Hash) (user : UserId) {κ α : Type} (fetch : κ → Request)
    (page : κ → List α → Bool → Response) (position : α → κ) : κ → Db → List α → Db → Prop
  | last {cursor : κ} {db : Db} {got : List α} (calls : List Call) (here : Surroundings)
      (id : MessageId)
      (answered : (deliver sha256 here (runCalls sha256 db calls) user id (fetch cursor)).1 =
        .ok (page cursor got false)) :
      FetchWalk sha256 user fetch page position cursor db got
        (deliver sha256 here (runCalls sha256 db calls) user id (fetch cursor)).2
  | next {cursor : κ} {db final : Db} {got rest : List α} {a : α} (calls : List Call)
      (here : Surroundings) (id : MessageId)
      (answered : (deliver sha256 here (runCalls sha256 db calls) user id (fetch cursor)).1 =
        .ok (page cursor got true))
      (ends : got.getLast? = some a)
      (walk : FetchWalk sha256 user fetch page position (position a)
        (deliver sha256 here (runCalls sha256 db calls) user id (fetch cursor)).2 rest final) :
      FetchWalk sha256 user fetch page position cursor db (got ++ rest) final

abbrev EventWalk (sha256 : Hash) (user : UserId) (room : RoomId) :=
  FetchWalk sha256 user (.fetchRoomEvents room) (.roomEvents room)
    (fun e : Event => e.operation.parent + 1)

abbrev WelcomeWalk (sha256 : Hash) (user : UserId) :=
  FetchWalk sha256 user .fetchWelcomes .welcomes WelcomeDelivery.cursor

abbrev IndexWalk (sha256 : Hash) (user : UserId) :=
  FetchWalk sha256 user .syncIndex (fun _ => .syncIndex) (fun h : RoomHead => some h.room)

abbrev State (sha256 : Hash) := {db : Db // Valid sha256 db}

def State.run {sha256 : Hash} (s : State sha256) (calls : List Call) : State sha256 :=
  ⟨runCalls sha256 s.1 calls, s.2.runCalls calls⟩

def State.fetch {sha256 : Hash} (s : State sha256) (here : Surroundings) (user : UserId)
    (id : MessageId) (request : Request) : State sha256 :=
  ⟨(deliver sha256 here s.1 user id request).2, s.2.deliver here user id request⟩

def Grows {sha256 : Hash} (s t : State sha256) : Prop := Extends s.1 t.1

variable {request : Request} {user : UserId} {here : Surroundings} {id : MessageId} {db : Db}

theorem page_answer {sha256 : Hash} (valid : Valid sha256 db)
    {response : Response} (page : isPage response = true) (read : request.isRead = true)
    (answered : (deliver sha256 here db user id request).1 = .ok response) :
    (deliver sha256 here db user id request).2 = db ∧
      ∃ env, execute env db user id request = .ok (response, db) := by
  have delivers := deliver_delivers sha256 here db user id request
  rw [answered] at delivers
  generalize (deliver sha256 here db user id request).2 = final at delivers ⊢
  cases delivers with
  | conflicting => simp [isPage] at page
  | unsettled => simp [isPage] at page
  | @replayed wire row _ encoded saved same decoded =>
    obtain ⟨_, replay, result⟩ := valid.journal.results row (savedRequest_some saved).1
    have equal := result.decoded
    rw [decoded] at equal
    obtain rfl := Except.ok.inj equal
    rw [result.plain] at page
    exact absurd page Bool.false_ne_true
  | @answered env _ read unused executed => exact ⟨rfl, env, executed⟩
  | settled journals =>
    rw [journals.durable] at read
    exact absurd read Bool.false_ne_true

theorem forall₂_of_reads {ρ α : Type} {read : ρ → Except StorageError α} {page : List ρ}
    {values : List α} (reads : page.map read = values.map .ok) :
    List.Forall₂ (fun row value => row ∈ page ∧ read row = .ok value) page values := by
  refine (List.forall₂_and_left _ _).mpr ⟨fun _ member => member, ?_⟩
  have same : List.Forall₂ (· = ·) (page.map read) (values.map .ok) := by
    rw [List.forall₂_eq_eq_eq]
    exact reads
  exact List.forall₂_map_right_iff.mp (List.forall₂_map_left_iff.mp same)

variable {room : RoomId} {start : UInt64} {more : Bool}

theorem roomEvents_answer {sha256 : Hash} (valid : Valid sha256 db) {events : List Event}
    (answered : (deliver sha256 here db user id (.fetchRoomEvents room start)).1 =
      .ok (.roomEvents room start events more)) :
    (deliver sha256 here db user id (.fetchRoomEvents room start)).2 = db ∧
      ∃ page, List.Forall₂ Holds page events ∧
        IsPage EventRow.sequence (ofRoom db.deliveryEvents room) (some start.toNat) page more := by
  obtain ⟨same, env, executed⟩ := page_answer valid rfl rfl answered
  refine ⟨same, ?_⟩
  have result := (map_unchanged executed).1
  have bound : start.toNat ≤ i64Max := by
    by_contra large
    rw [fetchRoomEvents, if_pos (Nat.not_le.mp large)] at result
    simp at result
  have subscribed : db.isSubscribed room user = true := by
    by_contra absent
    rw [fetchRoomEvents, if_neg (Nat.not_lt.mpr bound), if_pos absent] at result
    simp at result
  obtain ⟨page, events', more', answer, reads, paged⟩ :=
    fetchRoomEvents_page valid.toTables subscribed bound
  rw [answer] at result
  obtain ⟨-, -, rfl, rfl⟩ := Response.roomEvents.inj (Except.ok.inj result)
  refine ⟨page, (forall₂_of_reads reads).imp ?_, paged.isPage⟩
  rintro row e ⟨member, read⟩
  have inside := (List.mem_filter.mp (List.mem_filter.mp (paged.isPage.front.subset member)).1).1
  obtain ⟨f, holds⟩ := valid.log.records row inside
  have equal := decodeStored_ok.mp read
  rw [holds.decoded] at equal
  exact Except.ok.inj equal ▸ holds

/-- A Welcome as it is delivered: the stored record under the cursor of its row. -/
def DeliversWelcome (row : WelcomeRow) (w : WelcomeDelivery) : Prop :=
  w.cursor.toNat = row.cursor ∧
    ∃ stored, HoldsWelcome row stored ∧ w = { stored with cursor := w.cursor }

theorem welcomes_answer {sha256 : Hash} (valid : Valid sha256 db) {welcomes : List WelcomeDelivery}
    (answered : (deliver sha256 here db user id (.fetchWelcomes start)).1 =
      .ok (.welcomes start welcomes more)) :
    (deliver sha256 here db user id (.fetchWelcomes start)).2 = db ∧
      ∃ page, List.Forall₂ DeliversWelcome page welcomes ∧
        Paged WelcomeRow.cursor (fun row => row.record.length)
          (ofRecipient db.deliveryWelcomes user) start.toNat page more := by
  obtain ⟨same, env, executed⟩ := page_answer valid rfl rfl answered
  refine ⟨same, ?_⟩
  have result := (map_unchanged executed).1
  have bound : start.toNat ≤ i64Max := by
    by_contra large
    rw [fetchWelcomes, if_pos (Nat.not_le.mp large)] at result
    simp at result
  obtain ⟨page, welcomes', more', answer, reads, paged⟩ :=
    fetchWelcomes_page valid.toTables user bound
  rw [answer] at result
  obtain ⟨-, rfl, rfl⟩ := Response.welcomes.inj (Except.ok.inj result)
  refine ⟨page, (forall₂_of_reads reads).imp ?_, paged⟩
  rintro row w ⟨member, read⟩
  have inside := (List.mem_filter.mp (List.mem_filter.mp (paged.isPage.front.subset member)).1).1
  obtain ⟨stored, holds, -⟩ := valid.welcomes.records row inside
  rw [readWelcome, decodeStored_ok.mpr holds.decoded] at read
  obtain rfl := Except.ok.inj read
  exact ⟨toNat_ofNat_i64 (valid.welcomes.cursor_le inside), stored, holds, rfl⟩

theorem syncIndex_answer {sha256 : Hash} (valid : Valid sha256 db)
    {start : Option RoomId} {rooms : List RoomHead}
    (answered : (deliver sha256 here db user id (.syncIndex start)).1 =
      .ok (.syncIndex rooms more)) :
    (deliver sha256 here db user id (.syncIndex start)).2 = db ∧
      IsPage (fun room => room) (indexView db user) start (rooms.map RoomHead.room) more := by
  obtain ⟨same, env, executed⟩ := page_answer valid rfl rfl answered
  refine ⟨same, ?_⟩
  have result := (Prod.mk.inj (Except.ok.inj executed)).1
  obtain ⟨rooms', more', answer, -, -, isPage⟩ := syncIndex_page valid.rooms user start
  rw [answer] at result
  obtain ⟨rfl, rfl⟩ := Response.syncIndex.inj result
  exact isPage

section Transfer

variable {sha256 : Hash} {user : UserId} {κ α ρ K : Type} [LinearOrder K] {fetch : κ → Request}
  {page : κ → List α → Bool → Response} {position : α → κ} (key : ρ → K)
  (view : State sha256 → List ρ) (cursorOf : κ → Option K) {R : ρ → α → Prop}

private theorem getLast_of_forall₂ {rows : List ρ} {got : List α} (related : List.Forall₂ R rows got)
    {a : α} (ends : got.getLast? = some a) : ∃ r, rows.getLast? = some r ∧ R r a := by
  have reversed := List.forall₂_reverse_iff.mpr related
  rw [← List.head?_reverse] at ends
  cases hgot : got.reverse with
  | nil => simp [hgot] at ends
  | cons b bs =>
    rw [hgot] at ends reversed
    obtain ⟨r, rs, first, -, equal⟩ := List.forall₂_cons_right_iff.mp reversed
    refine ⟨r, ?_, ?_⟩
    · rw [← List.head?_reverse, equal]
      rfl
    · simp only [List.head?_cons, Option.some.injEq] at ends
      exact ends ▸ first

theorem FetchWalk.toWalk
    (paged : ∀ (s : State sha256) here id cursor got more,
      (deliver sha256 here s.1 user id (fetch cursor)).1 = .ok (page cursor got more) →
      Extends s.1 (s.fetch here user id (fetch cursor)).1 ∧
      ∃ rows, List.Forall₂ R rows got ∧
        IsPage key (view (s.fetch here user id (fetch cursor))) (cursorOf cursor) rows more)
    (located : ∀ r a, R r a → cursorOf (position a) = some (key r))
    {cursor : κ} {db final : Db} {got : List α} (valid : Valid sha256 db)
    (walk : FetchWalk sha256 user fetch page position cursor db got final) :
    ∃ reached : Valid sha256 final, ∃ rows, List.Forall₂ R rows got ∧
      Walk key Grows view (cursorOf cursor) ⟨db, valid⟩ rows ⟨final, reached⟩ := by
  induction walk with
  | @last cursor db got calls here id answered =>
    let s : State sha256 := State.run ⟨db, valid⟩ calls
    obtain ⟨grown, rows, related, isPage⟩ := paged s here id cursor got false answered
    exact ⟨(s.fetch here user id (fetch cursor)).2, rows, related,
      .last ((extends_runCalls sha256 db calls).trans grown) isPage⟩
  | @next cursor db final got rest a calls here id answered ends walk ih =>
    let s : State sha256 := State.run ⟨db, valid⟩ calls
    obtain ⟨grown, rows, related, isPage⟩ := paged s here id cursor got true answered
    obtain ⟨reached, more, relatedMore, later⟩ := ih (s.fetch here user id (fetch cursor)).2
    obtain ⟨r, endsRow, atEnd⟩ := getLast_of_forall₂ related ends
    rw [located r a atEnd] at later
    exact ⟨reached, rows ++ more, List.rel_append related relatedMore,
      .next ((extends_runCalls sha256 db calls).trans grown) isPage endsRow later⟩

end Transfer

theorem position_of_holds {row : EventRow} {e : Event} (holds : Holds row e) :
    (e.operation.parent + 1).toNat = row.sequence := by
  have parent := holds.admissible.parent
  have next := holds.parent
  unfold i64Max at parent
  rw [UInt64.toNat_add, ← next]
  exact Nat.mod_eq_of_lt (show e.operation.parent.toNat + 1 < 2 ^ 64 by omega)

variable {db final : Db}

theorem eventWalk_rows {sha256 : Hash} {got : List Event}
    (valid : Valid sha256 db) (walk : EventWalk sha256 user room start db got final) :
    Valid sha256 final ∧ List.Forall₂ Holds
      ((ofRoom final.deliveryEvents room).filter fun row => start.toNat < row.sequence) got := by
  obtain ⟨reached, rows, related, abstractWalk⟩ := walk.toWalk EventRow.sequence
    (fun s => ofRoom s.1.deliveryEvents room) (fun c => some c.toNat) (R := Holds)
    (by
      intro s here id cursor got more answered
      obtain ⟨same, page, related, isPage⟩ := roomEvents_answer s.2 answered
      refine ⟨extends_deliver sha256 here s.1 user id _, page, related, ?_⟩
      simp only [State.fetch, same]
      exact isPage)
    (fun row e holds => congrArg some (position_of_holds holds)) valid
  have all := abstractWalk.eq_filter (fun s => log_sorted s.2.log room)
    fun s t grown => grown.events.filter _
  exact ⟨reached, all ▸ related⟩

theorem welcomeWalk_rows {sha256 : Hash} {got : List WelcomeDelivery} (valid : Valid sha256 db)
    (walk : WelcomeWalk sha256 user start db got final) :
    Valid sha256 final ∧ List.Forall₂ DeliversWelcome
      ((ofRecipient final.deliveryWelcomes user).filter fun row => start.toNat < row.cursor) got := by
  obtain ⟨reached, rows, related, abstractWalk⟩ := walk.toWalk WelcomeRow.cursor
    (fun s => ofRecipient s.1.deliveryWelcomes user) (fun c => some c.toNat) (R := DeliversWelcome)
    (by
      intro s here id cursor got more answered
      obtain ⟨same, page, related, paged⟩ := welcomes_answer s.2 answered
      refine ⟨extends_deliver sha256 here s.1 user id _, page, related, ?_⟩
      simp only [State.fetch, same]
      exact paged.isPage)
    (fun row w delivers => congrArg some delivers.1) valid
  have all := abstractWalk.eq_filter (fun s => welcomes_sorted s.2.welcomes user)
    fun s t grown => grown.welcomes.filter _
  exact ⟨reached, all ▸ related⟩

theorem indexView_mono {db next : Db} (grown : Extends db next) (user : UserId) :
    indexView db user ⊆ indexView next user := by
  intro room member
  obtain ⟨⟨r, inside, same⟩, subscribed⟩ := mem_indexView.mp member
  refine mem_indexView.mpr ⟨⟨r, grown.rooms.subset inside, same⟩, ?_⟩
  exact isSubscribed_iff.mpr (grown.subscribers.subset (isSubscribed_iff.mp subscribed))

theorem indexWalk_rooms {sha256 : Hash} {start : Option RoomId}
    {got : List RoomHead} (valid : Valid sha256 db)
    (walk : IndexWalk sha256 user start db got final) :
    (got.map RoomHead.room).Pairwise (· < ·) ∧
      (∀ room ∈ indexView db user, beyond (fun r => r) start room = true →
        room ∈ got.map RoomHead.room) ∧
      ∀ room ∈ got.map RoomHead.room, room ∈ indexView final user := by
  obtain ⟨reached, rows, related, abstractWalk⟩ := walk.toWalk (fun room => room)
    (fun s => indexView s.1 user) (fun c => c) (R := fun room h => h.room = room)
    (by
      intro s here id cursor got more answered
      obtain ⟨same, isPage⟩ := syncIndex_answer s.2 answered
      refine ⟨extends_deliver sha256 here s.1 user id _, got.map RoomHead.room, ?_, ?_⟩
      · exact List.forall₂_map_left_iff.mpr (List.forall₂_same.mpr fun _ _ => rfl)
      · simp only [State.fetch, same]
        exact isPage)
    (fun room h same => congrArg some same) valid
  have rows_eq : rows = got.map RoomHead.room := by
    have same : List.Forall₂ (· = ·) rows (got.map RoomHead.room) :=
      List.forall₂_map_right_iff.mpr (related.imp fun _ _ equal => equal.symm)
    rwa [List.forall₂_eq_eq_eq] at same
  obtain ⟨sorted, -, complete, present⟩ := abstractWalk.covers
    (fun s : State sha256 => indexView_sorted s.2.rooms user)
    fun (s t : State sha256) (grown : Grows s t) => indexView_mono grown user
  rw [rows_eq] at sorted complete present
  exact ⟨sorted, complete, present⟩

theorem deliver_read {sha256 : Hash} {response : Response} (working : here.fault = none)
    (unused : db.savedRequest user id = none) (read : request.isRead = true)
    (fits : wireSize request ≤ maxPayload)
    (executed : execute here db user id request = .ok (response, db)) :
    deliver sha256 here db user id request = (.ok response, db) := by
  have receipt : request.isAcknowledge = false := by
    cases request <;> first | rfl | simp [Request.isRead] at read
  have valid : receiptValid sha256 user id request = true := by
    cases request <;> first | rfl | simp [Request.isRead] at read
  simp [deliver, working, transact, encodeMessage_of_le fits, unused, perform, valid, admission,
    read, executed, receipt]

section Complete

variable {sha256 : Hash} (here : Surroundings) {db : Db} {user : UserId} (id : MessageId)
  {κ α : Type} {fetch : κ → Request} {page : κ → List α → Bool → Response} {position : α → κ}

theorem FetchWalk.complete (Good : κ → Prop) (ahead : κ → Nat)
    (fetches : ∀ cursor, Good cursor → ∃ got more,
      deliver sha256 here db user id (fetch cursor) = (.ok (page cursor got more), db) ∧
      (more = true → ∃ a, got.getLast? = some a ∧ Good (position a) ∧
        ahead (position a) < ahead cursor)) (cursor : κ) (good : Good cursor) :
    ∃ got, FetchWalk sha256 user fetch page position cursor db got db := by
  induction hn : ahead cursor using Nat.strong_induction_on generalizing cursor with
  | _ n ih =>
    obtain ⟨got, more, answered, advance⟩ := fetches cursor good
    have answer := congrArg Prod.fst answered
    have same : (deliver sha256 here db user id (fetch cursor)).2 = db :=
      congrArg Prod.snd answered
    cases more with
    | false =>
      refine ⟨got, ?_⟩
      have walk : FetchWalk sha256 user fetch page position cursor db got
          (deliver sha256 here db user id (fetch cursor)).2 := .last [] here id answer
      rwa [same] at walk
    | true =>
      obtain ⟨a, ends, goodNext, fewer⟩ := advance rfl
      obtain ⟨rest, walk⟩ := ih _ (hn ▸ fewer) (position a) goodNext rfl
      have later : FetchWalk sha256 user fetch page position (position a)
          (deliver sha256 here db user id (fetch cursor)).2 rest db := by
        rw [same]
        exact walk
      exact ⟨got ++ rest, .next [] here id answer ends later⟩

end Complete

private theorem size_read (read : request.isRead = true) : wireSize request ≤ maxPayload := by
  have limit : 28 ≤ maxPayload := by decide
  refine Nat.le_trans ?_ limit
  cases request with
  | fetchRoomEvents room start =>
    change (roomId.prod u64).size (room, start) + 1 ≤ 28
    have bound := size_u64_le start
    simp only [Codec.size_prod, size_roomId, size_u64]
    omega
  | syncIndex start =>
    change (Grotto.Format.Postcard.option roomId).size start + 1 ≤ 28
    cases start <;> simp
  | fetchWelcomes start =>
    change u64.size start + 1 ≤ 28
    have bound := size_u64_le start
    rw [size_u64]
    omega
  | _ => simp [Request.isRead] at read

private theorem getLast?_of_ne_nil {α : Type} {l : List α} (nonempty : l ≠ []) :
    ∃ a, l.getLast? = some a := ⟨l.getLast nonempty, List.getLast?_eq_some_getLast nonempty⟩

private theorem ne_nil_of_forall₂ {α β : Type} {R : α → β → Prop} {l : List α} {m : List β}
    (related : List.Forall₂ R l m) (nonempty : l ≠ []) : m ≠ [] := by
  rintro rfl
  exact nonempty (List.forall₂_nil_right_iff.mp related)

theorem eventWalk_exists {sha256 : Hash} (valid : Valid sha256 db) (working : here.fault = none)
    (unused : db.savedRequest user id = none) (subscribed : db.isSubscribed room user = true)
    (bound : start.toNat ≤ i64Max) : ∃ got, EventWalk sha256 user room start db got db := by
  refine FetchWalk.complete here id (fun c => c.toNat ≤ i64Max)
    (fun c => ((ofRoom db.deliveryEvents room).filter
      (beyond EventRow.sequence (some c.toNat))).length) ?_ start bound
  intro cursor good
  obtain ⟨_, events, more, answer, -⟩ := fetchRoomEvents_page valid.toTables subscribed good
  have answered : deliver sha256 here db user id (.fetchRoomEvents room cursor) =
      (.ok (.roomEvents room cursor events more), db) :=
    deliver_read working unused rfl (size_read rfl) (by simp [execute, answer, Except.map])
  refine ⟨events, more, answered, fun further => ?_⟩
  obtain ⟨-, page, related, isPage⟩ := roomEvents_answer valid (congrArg Prod.fst answered)
  obtain ⟨e, ends⟩ := getLast?_of_ne_nil (ne_nil_of_forall₂ related (isPage.partly further).1)
  obtain ⟨row, endsRow, holds⟩ := getLast_of_forall₂ related ends
  refine ⟨e, ends, ?_, ?_⟩
  · rw [position_of_holds holds]
    exact holds.sequence_le
  · rw [position_of_holds holds]
    exact isPage.shrinks endsRow

theorem welcomeWalk_exists {sha256 : Hash} (valid : Valid sha256 db) (working : here.fault = none)
    (unused : db.savedRequest user id = none) (bound : start.toNat ≤ i64Max) :
    ∃ got, WelcomeWalk sha256 user start db got db := by
  refine FetchWalk.complete here id (fun c => c.toNat ≤ i64Max)
    (fun c => ((ofRecipient db.deliveryWelcomes user).filter
      (beyond WelcomeRow.cursor (some c.toNat))).length) ?_ start bound
  intro cursor good
  obtain ⟨_, welcomes, more, answer, -⟩ := fetchWelcomes_page valid.toTables user good
  have answered : deliver sha256 here db user id (.fetchWelcomes cursor) =
      (.ok (.welcomes cursor welcomes more), db) :=
    deliver_read working unused rfl (size_read rfl) (by simp [execute, answer, Except.map])
  refine ⟨welcomes, more, answered, fun further => ?_⟩
  obtain ⟨-, page, related, paged⟩ := welcomes_answer valid (congrArg Prod.fst answered)
  obtain ⟨w, ends⟩ := getLast?_of_ne_nil (ne_nil_of_forall₂ related (paged.isPage.partly further).1)
  obtain ⟨row, endsRow, delivers⟩ := getLast_of_forall₂ related ends
  refine ⟨w, ends, ?_, ?_⟩
  · have inside := (List.mem_filter.mp (List.mem_filter.mp
      (paged.isPage.front.subset (List.mem_of_getLast? endsRow))).1).1
    rw [delivers.1]
    exact valid.welcomes.cursor_le inside
  · rw [delivers.1]
    exact paged.isPage.shrinks endsRow

theorem indexWalk_exists {sha256 : Hash} (valid : Valid sha256 db) (working : here.fault = none)
    (unused : db.savedRequest user id = none) (start : Option RoomId) :
    ∃ got, IndexWalk sha256 user start db got db := by
  refine FetchWalk.complete here id (fun _ => True)
    (fun c => ((indexView db user).filter (beyond (fun room => room) c)).length) ?_ start trivial
  intro cursor _
  obtain ⟨rooms, more, answer, -⟩ := syncIndex_page valid.rooms user cursor
  have answered : deliver sha256 here db user id (.syncIndex cursor) =
      (.ok (.syncIndex rooms more), db) :=
    deliver_read working unused rfl (size_read rfl) (by simp [execute, answer])
  refine ⟨rooms, more, answered, fun further => ?_⟩
  obtain ⟨-, isPage⟩ := syncIndex_answer valid (congrArg Prod.fst answered)
  have nonempty : rooms ≠ [] := fun none => (isPage.partly further).1 (by rw [none]; rfl)
  obtain ⟨h, ends⟩ := getLast?_of_ne_nil nonempty
  exact ⟨h, ends, trivial, isPage.shrinks (by rw [List.getLast?_map, ends]; rfl)⟩

private theorem filter_range' (start n : Nat) :
    (List.range' 1 n).filter (fun s => start < s) = List.range' (start + 1) (n - start) := by
  induction n with
  | zero => simp
  | succ n ih =>
    rw [List.range'_concat, List.filter_append, ih, Nat.one_mul]
    by_cases below : start < n + 1
    · have count : n + 1 - start = n - start + 1 := by omega
      have last : [1 + n].filter (fun s => decide (start < s)) = [start + 1 + 1 * (n - start)] := by
        rw [List.filter_singleton, show decide (start < 1 + n) = true from by simp; omega]
        simp only [Bool.cond_true, List.cons.injEq, and_true]
        omega
      rw [count, List.range'_concat, last]
    · have count : n + 1 - start = n - start := by omega
      have last : [1 + n].filter (fun s => decide (start < s)) = [] := by
        rw [List.filter_singleton, show decide (start < 1 + n) = false from by simp; omega]
        rfl
      rw [count, last, List.append_nil]

private theorem sequences_of_walk (log : Log db.deliveryEvents) {start : Nat} {got : List Event}
    (related : List.Forall₂ Holds
      ((ofRoom db.deliveryEvents room).filter fun row => start < row.sequence) got) :
    got.map (fun e => e.operation.parent.toNat + 1) =
      List.range' (start + 1) (db.head room - start) := by
  have keys : ((ofRoom db.deliveryEvents room).filter fun row => start < row.sequence).map
      EventRow.sequence = got.map fun e => e.operation.parent.toNat + 1 := by
    rw [← List.forall₂_eq_eq_eq]
    exact List.forall₂_map_right_iff.mpr (List.forall₂_map_left_iff.mpr
      (related.imp fun _ _ holds => holds.parent.symm))
  have rows : ((ofRoom db.deliveryEvents room).filter fun row => start < row.sequence).map
      EventRow.sequence =
      ((ofRoom db.deliveryEvents room).map EventRow.sequence).filter fun s => start < s := by
    rw [List.filter_map]
    rfl
  rw [← keys, rows, log.sequences room, filter_range', log.head_eq]

private theorem readWelcome_of_delivers {row : WelcomeRow} {w : WelcomeDelivery}
    (delivers : DeliversWelcome row w) : readWelcome row = .ok w := by
  obtain ⟨cursor, stored, holds, equal⟩ := delivers
  rw [readWelcome, decodeStored_ok.mpr holds.decoded]
  refine congrArg Except.ok ?_
  rw [equal, ← cursor]
  simp

theorem right_of_mem {α β : Type} {R : α → β → Prop} {l : List α} {m : List β}
    (related : List.Forall₂ R l m) {b : β} (member : b ∈ m) : ∃ a ∈ l, R a b := by
  induction related with
  | nil => simp at member
  | cons first rest ih =>
    rcases List.mem_cons.mp member with rfl | later
    · exact ⟨_, List.mem_cons_self, first⟩
    · obtain ⟨a, inside, holds⟩ := ih later
      exact ⟨a, List.mem_cons_of_mem _ inside, holds⟩

private theorem left_of_mem {α β : Type} {R : α → β → Prop} {l : List α} {m : List β}
    (related : List.Forall₂ R l m) {a : α} (member : a ∈ l) : ∃ b ∈ m, R a b :=
  right_of_mem related.flip member

theorem mem_of_subscribed (rooms : Rooms db.rooms db.roomSubscribers)
    (subscribed : db.isSubscribed room user = true) : room ∈ indexView db user :=
  mem_indexView.mpr ⟨rooms.known (room, user) (isSubscribed_iff.mp subscribed), subscribed⟩

/-- Recovery from any state the calls can reach, under any interleaving. A walk over a room's log
yields the events above its start up to the head at the last page; a walk over the Welcomes yields
the user's rows above its start, in order; a walk over the index visits rooms in increasing order
and misses none that was there when it began. No page that announces more is empty, a last page
leaves nothing behind, and a reader whose storage works can finish every walk. -/
theorem recovery_pagination (sha256 : Hash) (before : List Call) (user : UserId) :
    (∀ room start got final,
      EventWalk sha256 user room start (runCalls sha256 Db.empty before) got final →
      got.map (fun e => e.operation.parent.toNat + 1) =
          List.range' (start.toNat + 1) (final.head room - start.toNat) ∧
        ∀ e ∈ got, ∃ row ∈ final.deliveryEvents, row.room = room ∧
          decodeMessage Event row.record = .ok e) ∧
    (∀ start got final,
      WelcomeWalk sha256 user start (runCalls sha256 Db.empty before) got final →
      ((ofRecipient final.deliveryWelcomes user).filter
          fun row => start.toNat < row.cursor).map readWelcome = got.map .ok ∧
        (got.map fun w => w.cursor.toNat).Pairwise (· < ·)) ∧
    (∀ start got final,
      IndexWalk sha256 user start (runCalls sha256 Db.empty before) got final →
      (got.map RoomHead.room).Pairwise (· < ·) ∧
        ∀ room, (runCalls sha256 Db.empty before).isSubscribed room user = true →
          (start.all fun s => s < room) = true → room ∈ got.map RoomHead.room) ∧
    (∀ here id room start events more,
      (deliver sha256 here (runCalls sha256 Db.empty before) user id
        (.fetchRoomEvents room start)).1 = .ok (.roomEvents room start events more) →
      (more = true → events ≠ []) ∧
      (more = false → ∀ row ∈ (runCalls sha256 Db.empty before).deliveryEvents, row.room = room →
        start.toNat < row.sequence → ∃ e ∈ events, Holds row e)) ∧
    (∀ here id start welcomes more,
      (deliver sha256 here (runCalls sha256 Db.empty before) user id (.fetchWelcomes start)).1 =
        .ok (.welcomes start welcomes more) →
      (more = true → welcomes ≠ []) ∧
      (more = false → ∀ row ∈ (runCalls sha256 Db.empty before).deliveryWelcomes,
        row.recipient = user → start.toNat < row.cursor →
        ∃ w ∈ welcomes, readWelcome row = .ok w)) ∧
    (∀ here id start rooms more,
      (deliver sha256 here (runCalls sha256 Db.empty before) user id (.syncIndex start)).1 =
        .ok (.syncIndex rooms more) →
      (more = true → rooms ≠ []) ∧
      (more = false → ∀ room, (runCalls sha256 Db.empty before).isSubscribed room user = true →
        (start.all fun s => s < room) = true → room ∈ rooms.map RoomHead.room)) ∧
    (∀ (here : Surroundings) id, here.fault = none →
      (runCalls sha256 Db.empty before).savedRequest user id = none →
      (∀ room start, (runCalls sha256 Db.empty before).isSubscribed room user = true →
        start.toNat ≤ i64Max → ∃ got final,
          EventWalk sha256 user room start (runCalls sha256 Db.empty before) got final) ∧
      (∀ start, start.toNat ≤ i64Max → ∃ got final,
        WelcomeWalk sha256 user start (runCalls sha256 Db.empty before) got final) ∧
      (∀ start, ∃ got final,
        IndexWalk sha256 user start (runCalls sha256 Db.empty before) got final)) := by
  have valid := (Valid.empty sha256).runCalls before
  refine ⟨?_, ?_, ?_, ?_, ?_, ?_, ?_⟩
  · intro room start got final walk
    obtain ⟨reached, related⟩ := eventWalk_rows valid walk
    refine ⟨sequences_of_walk reached.log related, fun e member => ?_⟩
    obtain ⟨row, listed, holds⟩ := right_of_mem related member
    obtain ⟨inside, same⟩ := List.mem_filter.mp (List.mem_filter.mp listed).1
    exact ⟨row, inside, by simpa using same, holds.decoded⟩
  · intro start got final walk
    obtain ⟨reached, related⟩ := welcomeWalk_rows valid walk
    constructor
    · rw [← List.forall₂_eq_eq_eq]
      exact List.forall₂_map_right_iff.mpr (List.forall₂_map_left_iff.mpr
        (related.imp fun _ _ delivers => readWelcome_of_delivers delivers))
    · have keys : ((ofRecipient final.deliveryWelcomes user).filter
          fun row => start.toNat < row.cursor).map WelcomeRow.cursor =
          got.map fun w => w.cursor.toNat := by
        rw [← List.forall₂_eq_eq_eq]
        exact List.forall₂_map_right_iff.mpr (List.forall₂_map_left_iff.mpr
          (related.imp fun _ _ delivers => delivers.1.symm))
      rw [← keys]
      exact List.pairwise_map.mpr ((welcomes_sorted reached.welcomes user).filter _)
  · intro start got final walk
    obtain ⟨sorted, complete, -⟩ := indexWalk_rooms valid walk
    exact ⟨sorted, fun room subscribed => complete room (mem_of_subscribed valid.rooms subscribed)⟩
  · intro here id room start events more answered
    obtain ⟨-, page, related, isPage⟩ := roomEvents_answer valid answered
    refine ⟨fun further => ne_nil_of_forall₂ related (isPage.partly further).1, ?_⟩
    intro last row member same later
    refine left_of_mem related ?_
    rw [isPage.whole last]
    exact List.mem_filter.mpr ⟨List.mem_filter.mpr ⟨member, by simpa using same⟩,
      by simpa [beyond] using later⟩
  · intro here id start welcomes more answered
    obtain ⟨-, page, related, paged⟩ := welcomes_answer valid answered
    refine ⟨fun further => ne_nil_of_forall₂ related (paged.isPage.partly further).1, ?_⟩
    intro last row member same later
    have listed : row ∈ page := by
      rw [paged.isPage.whole last]
      exact List.mem_filter.mpr ⟨List.mem_filter.mpr ⟨member, by simpa using same⟩,
        by simpa [beyond] using later⟩
    obtain ⟨w, inside, delivers⟩ := left_of_mem related listed
    exact ⟨w, inside, readWelcome_of_delivers delivers⟩
  · intro here id start rooms more answered
    obtain ⟨-, isPage⟩ := syncIndex_answer valid answered
    refine ⟨fun further none => (isPage.partly further).1 (by rw [none]; rfl), ?_⟩
    intro last room subscribed later
    rw [isPage.whole last]
    exact List.mem_filter.mpr ⟨mem_of_subscribed valid.rooms subscribed, later⟩
  · intro here id working unused
    refine ⟨fun room start subscribed bound => ?_, fun start bound => ?_, fun start => ?_⟩
    · obtain ⟨got, walk⟩ := eventWalk_exists valid working unused subscribed bound
      exact ⟨got, _, walk⟩
    · obtain ⟨got, walk⟩ := welcomeWalk_exists valid working unused bound
      exact ⟨got, _, walk⟩
    · obtain ⟨got, walk⟩ := indexWalk_exists valid working unused start
      exact ⟨got, _, walk⟩

end Grotto.Relay.Recovery
