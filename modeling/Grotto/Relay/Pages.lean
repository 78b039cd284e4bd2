/- GID: Grotto/Relay/Pages
   digest: The three paged reads return budgeted pages of their sorted views. -/

import Grotto.Base.Paging
import Grotto.Relay.Invariant

set_option autoImplicit false

namespace Grotto.Relay.Pages

open Format.Varint
open Base.Paging
open Protocol.Records Protocol.Wire Protocol.Sizes
open Storage Deliver Steps Invariant

def pageBudget : Nat := maxPayload - 96

abbrev pageOf {ρ : Type} (size : ρ → Nat) (rows : List ρ) : List ρ :=
  cut pageSize pageBudget size 0 0 rows

theorem takePage_eq {ρ α : Type} (size : ρ → Nat) {read : ρ → Except StorageError α}
    {rows : List ρ} (readable : ∀ row ∈ rows, ∃ value, read row = .ok value) (taken : List α)
    (bytes : Nat) :
    ∃ values,
      (cut pageSize pageBudget size taken.length bytes rows).map read = values.map .ok ∧
      takePage size read rows taken bytes = .ok (taken ++ values,
        decide ((cut pageSize pageBudget size taken.length bytes rows).length < rows.length)) := by
  induction rows generalizing taken bytes with
  | nil => exact ⟨[], rfl, by simp [takePage, cut]⟩
  | cons row rows ih =>
    unfold takePage cut
    change ∃ values, _ ∧ (if taken.length = pageSize ∨ bytes + size row > pageBudget then _
      else _) = _
    split
    · exact ⟨[], rfl, by simp⟩
    obtain ⟨value, this⟩ := readable row List.mem_cons_self
    obtain ⟨values, reads, page⟩ :=
      ih (fun r member => readable r (List.mem_cons_of_mem _ member)) (taken ++ [value])
        (bytes + size row)
    rw [List.length_append, List.length_singleton] at reads page
    refine ⟨value :: values, ?_, ?_⟩
    · rw [List.map_cons, List.map_cons, this, reads]
    · simp only [this, page, List.length_cons, List.append_assoc, List.cons_append,
        List.nil_append, Nat.add_lt_add_iff_right]

theorem map_of_reads {ρ α β : Type} {read : ρ → Except StorageError α} {page : List ρ}
    {values : List α} (reads : page.map read = values.map .ok) {f : ρ → β} {g : α → β}
    (agree : ∀ row ∈ page, ∀ value, read row = .ok value → f row = g value) :
    page.map f = values.map g := by
  induction page generalizing values with
  | nil =>
    have none : values = [] := by simpa using reads.symm
    rw [none]
    rfl
  | cons row page ih =>
    cases values with
    | nil => simp at reads
    | cons value values =>
      obtain ⟨first, rest⟩ := List.cons.inj reads
      rw [List.map_cons, List.map_cons, agree row List.mem_cons_self value first,
        ih rest fun r member => agree r (List.mem_cons_of_mem _ member)]

theorem mem_of_reads {ρ α : Type} {read : ρ → Except StorageError α} {page : List ρ}
    {values : List α} (reads : page.map read = values.map .ok) {value : α}
    (member : value ∈ values) : ∃ row ∈ page, read row = .ok value := by
  have listed : Except.ok value ∈ page.map read := by
    rw [reads]
    exact List.mem_map_of_mem member
  exact List.mem_map.mp listed

structure Paged {ρ : Type} (key : ρ → Nat) (size : ρ → Nat) (view : List ρ) (start : Nat)
    (page : List ρ) (more : Bool) : Prop where
  isPage : IsPage key view (some start) page more
  cut_eq : page = pageOf size (view.filter fun row => start < key row)
  count : page.length ≤ pageSize
  bytes : (page.map size).sum ≤ pageBudget

/-- A limited query over a view whose rows all fit alone yields such a page. -/
theorem paged_take {ρ : Type} {key size : ρ → Nat} {view : List ρ} (start : Nat)
    (alone : ∀ row ∈ view, size row ≤ pageBudget) :
    Paged key size view start
      (pageOf size ((view.filter fun row => start < key row).take 101))
      (decide ((pageOf size ((view.filter fun row => start < key row).take 101)).length <
        ((view.filter fun row => start < key row).take 101).length)) := by
  have whole : pageOf size ((view.filter fun row => start < key row).take 101) =
      pageOf size (view.filter fun row => start < key row) :=
    cut_take _ _ _ (Nat.zero_le _) (by decide) _ _
  have beyond_eq : view.filter (beyond key (some start)) =
      view.filter fun row => start < key row := rfl
  have count : (pageOf size (view.filter fun row => start < key row)).length ≤ pageSize := by
    simpa using cut_length pageSize pageBudget size (Nat.zero_le _) 0
      (view.filter fun row => start < key row)
  have front : pageOf size (view.filter fun row => start < key row) <+:
      view.filter fun row => start < key row := cut_prefix _ _ _ _ _ _
  rw [whole]
  generalize hrows : view.filter (fun row => start < key row) = rows at *
  have size_le : ∀ row ∈ rows, size row ≤ pageBudget := by
    intro row member
    rw [← hrows] at member
    exact alone row (List.mem_filter.mp member).1
  have page_le : pageSize = 100 := rfl
  have bytes : ((pageOf size rows).map size).sum ≤ pageBudget := by
    simpa using cut_size pageSize pageBudget size (Nat.zero_le _) 0 rows
  refine ⟨⟨by rw [beyond_eq]; exact front, fun last => ?_, fun more => ?_⟩, by rw [hrows], count, bytes⟩
  · rw [beyond_eq]
    refine front.eq_of_length ?_
    have le := front.length_le
    rw [decide_eq_false_iff_not, List.length_take] at last
    omega
  · rw [beyond_eq]
    rw [decide_eq_true_eq, List.length_take] at more
    constructor
    · cases rows with
      | nil => simp at more
      | cons row rows => exact cut_ne_nil _ _ _ (by decide) (size_le row List.mem_cons_self)
    · intro equal
      rw [equal] at more
      omega

theorem record_length {row : EventRow} {e : Event} (holds : Holds row e) :
    row.record.length = wireSize e := length_of_encodeMessage holds.encoded

theorem record_alone {row : EventRow} {e : Event} (holds : Holds row e) :
    row.record.length ≤ pageBudget := by
  have size := size_event_le holds.admissible
  rw [record_length holds]
  unfold pageBudget
  omega

variable {w : WelcomeDelivery}

theorem size_welcome_le (normal : normalizeRoomName w.roomName = .ok w.roomName)
    (unplaced : w.cursor = 0) (body : w.attachment.body.length ≤ maxMlsBlobBytes) :
    wireSize w ≤ 545 + maxMlsBlobBytes := by
  have name : utf8Size w.roomName ≤ 400 := normalizeRoomName_size normal
  have nameSize : varintSize 10 (utf8Size w.roomName) ≤ 2 := varintSize_le (k := 1) (by omega)
  have sequence := Grotto.Format.Postcard.size_u64_le w.sequence
  have bodySize := varintSize_body body
  have cursor : varintSize 10 w.cursor.toNat ≤ 1 := by
    rw [unplaced]
    decide
  have size : wireSize w = _ := size_welcomeDelivery wire w
  rw [size, size_welcomeAttachment]
  omega

theorem welcome_record_length {row : WelcomeRow} (holds : HoldsWelcome row w) :
    row.record.length = wireSize w :=
  length_of_encodeMessage holds.encoded

theorem welcome_alone {row : WelcomeRow} (holds : HoldsWelcome row w) :
    row.record.length ≤ pageBudget := by
  have size := size_welcome_le holds.name holds.cursor holds.body
  rw [welcome_record_length holds]
  have room : 545 + maxMlsBlobBytes ≤ pageBudget := by decide
  omega

private theorem sorted_of_sequences {ρ : Type} {key : ρ → Nat} {rows : List ρ} {n : Nat}
    (keys : rows.map key = List.range' 1 n) : rows.Pairwise fun a b => key a < key b := by
  refine List.pairwise_map.mp ?_
  rw [keys]
  exact List.pairwise_lt_range' 1

variable {events : List EventRow}

theorem log_sorted (log : Log events) (room : RoomId) :
    (ofRoom events room).Pairwise fun a b => a.sequence < b.sequence :=
  sorted_of_sequences (log.sequences room)

variable {db : Db}

theorem eventRows_eq (log : Log db.deliveryEvents) (room : RoomId) (start : Nat) :
    eventRows db room start =
      ((ofRoom db.deliveryEvents room).filter fun row => start < row.sequence).take 101 := by
  have rows : db.deliveryEvents.filter (fun row => row.room = room ∧ row.sequence > start) =
      (ofRoom db.deliveryEvents room).filter fun row => start < row.sequence := by
    rw [ofRoom, List.filter_filter]
    refine List.filter_congr fun row _ => ?_
    simp [Bool.and_comm]
  unfold eventRows
  rw [rows, List.Pairwise.insertionSort_eq]
  exact ((log_sorted log room).filter _).imp Nat.le_of_lt

abbrev ofRecipient (welcomes : List WelcomeRow) (user : UserId) : List WelcomeRow :=
  welcomes.filter fun row => row.recipient = user

theorem welcomes_sorted {welcomes : List WelcomeRow}
    (inbox : Welcomes events welcomes) (user : UserId) :
    (ofRecipient welcomes user).Pairwise fun a b => a.cursor < b.cursor :=
  (sorted_of_sequences inbox.cursors).filter _

theorem welcomeRows_eq (inbox : Welcomes db.deliveryEvents db.deliveryWelcomes) (user : UserId)
    (start : Nat) :
    welcomeRows db user start =
      ((ofRecipient db.deliveryWelcomes user).filter fun row => start < row.cursor).take 101 := by
  have rows : db.deliveryWelcomes.filter (fun row => row.recipient = user ∧ row.cursor > start) =
      (ofRecipient db.deliveryWelcomes user).filter fun row => start < row.cursor := by
    rw [ofRecipient, List.filter_filter]
    refine List.filter_congr fun row _ => ?_
    simp [Bool.and_comm]
  unfold welcomeRows
  rw [rows, List.Pairwise.insertionSort_eq]
  exact ((welcomes_sorted inbox user).filter _).imp Nat.le_of_lt

variable {user : UserId}

theorem fetchRoomEvents_page (tables : Tables db) {room : RoomId}
    (subscribed : db.isSubscribed room user = true) {start : UInt64}
    (bound : start.toNat ≤ i64Max) :
    ∃ page events more,
      fetchRoomEvents db user room start = .ok (.roomEvents room start events more) ∧
      page.map (fun row => decodeStored Event row.record) = events.map .ok ∧
      Paged EventRow.sequence (fun row => row.record.length) (ofRoom db.deliveryEvents room)
        start.toNat page more := by
  have held : ∀ row ∈ ofRoom db.deliveryEvents room, ∃ e, Holds row e :=
    fun row member => tables.log.records row (List.mem_filter.mp member).1
  have alone : ∀ row ∈ ofRoom db.deliveryEvents room, row.record.length ≤ pageBudget := by
    intro row member
    obtain ⟨e, holds⟩ := held row member
    exact record_alone holds
  have readable : ∀ row ∈ eventRows db room start.toNat,
      ∃ e, decodeStored Event row.record = .ok e := by
    intro row member
    rw [eventRows_eq tables.log] at member
    obtain ⟨e, holds⟩ := held row (List.mem_filter.mp (List.mem_of_mem_take member)).1
    exact ⟨e, decodeStored_ok.mpr holds.decoded⟩
  obtain ⟨events, reads, result⟩ :=
    takePage_eq (fun row : EventRow => row.record.length) readable [] 0
  rw [eventRows_eq tables.log] at reads result
  refine ⟨_, events, _, ?_, reads, paged_take start.toNat alone⟩
  unfold fetchRoomEvents
  rw [if_neg (by omega), if_neg (by simp [subscribed]), eventRows_eq tables.log, result]
  rfl

theorem fetchWelcomes_page (tables : Tables db) (user : UserId) {start : UInt64}
    (bound : start.toNat ≤ i64Max) :
    ∃ page welcomes more,
      fetchWelcomes db user start = .ok (.welcomes start welcomes more) ∧
      page.map readWelcome = welcomes.map .ok ∧
      Paged WelcomeRow.cursor (fun row => row.record.length) (ofRecipient db.deliveryWelcomes user)
        start.toNat page more := by
  have held : ∀ row ∈ ofRecipient db.deliveryWelcomes user, ∃ w, HoldsWelcome row w := by
    intro row member
    obtain ⟨w, holds, -⟩ := tables.welcomes.records row (List.mem_filter.mp member).1
    exact ⟨w, holds⟩
  have alone : ∀ row ∈ ofRecipient db.deliveryWelcomes user, row.record.length ≤ pageBudget := by
    intro row member
    obtain ⟨w, holds⟩ := held row member
    exact welcome_alone holds
  have readable : ∀ row ∈ welcomeRows db user start.toNat, ∃ w, readWelcome row = .ok w := by
    intro row member
    rw [welcomeRows_eq tables.welcomes] at member
    obtain ⟨w, holds⟩ := held row (List.mem_filter.mp (List.mem_of_mem_take member)).1
    unfold readWelcome
    rw [decodeStored_ok.mpr holds.decoded]
    exact ⟨_, rfl⟩
  obtain ⟨welcomes, reads, result⟩ :=
    takePage_eq (fun row : WelcomeRow => row.record.length) readable [] 0
  rw [welcomeRows_eq tables.welcomes] at reads result
  refine ⟨_, welcomes, _, ?_, reads, paged_take start.toNat alone⟩
  unfold fetchWelcomes
  rw [if_neg (by omega), welcomeRows_eq tables.welcomes, result]
  rfl

def headOf (db : Db) (r : RoomRow) : RoomHead :=
  ⟨r.roomId, r.name, UInt64.ofNat (db.head r.roomId)⟩

def indexView (db : Db) (user : UserId) : List RoomId :=
  List.insertionSort (· ≤ ·)
    ((db.rooms.filter fun r => db.isSubscribed r.roomId user).map RoomRow.roomId)

theorem mem_indexView {room : RoomId} :
    room ∈ indexView db user ↔
      (∃ r ∈ db.rooms, r.roomId = room) ∧ db.isSubscribed room user = true := by
  unfold indexView
  rw [List.mem_insertionSort, List.mem_map]
  constructor
  · rintro ⟨r, member, rfl⟩
    obtain ⟨inside, subscribed⟩ := List.mem_filter.mp member
    exact ⟨⟨r, inside, rfl⟩, subscribed⟩
  · rintro ⟨⟨r, inside, rfl⟩, subscribed⟩
    exact ⟨r, List.mem_filter.mpr ⟨inside, subscribed⟩, rfl⟩

theorem indexView_sorted (rooms : Rooms db.rooms db.roomSubscribers) (user : UserId) :
    (indexView db user).Pairwise (· < ·) := by
  have sorted : (indexView db user).Pairwise (· ≤ ·) := List.pairwise_insertionSort _ _
  have nodup : (indexView db user).Nodup := by
    refine (List.perm_insertionSort _ _).nodup_iff.mpr ?_
    exact rooms.ids.sublist (List.filter_sublist.map _)
  exact (sorted.and nodup).imp fun both => lt_of_le_of_ne both.1 both.2

private theorem join_row {subscribers : List (RoomId × UserId)} (keys : subscribers.Nodup)
    (room : RoomId) (user : UserId) (keep : Bool) (entry : RoomHead) :
    (subscribers.filter fun s => s.1 = room ∧ s.2 = user ∧ keep).map (fun _ => entry) =
      if (room, user) ∈ subscribers ∧ keep then [entry] else [] := by
  cases keep with
  | false => simp
  | true =>
    have same : subscribers.filter (fun s => s.1 = room ∧ s.2 = user ∧ true = true) =
        subscribers.filter (fun s => s = (room, user)) := by
      refine List.filter_congr fun s _ => ?_
      simp [Prod.ext_iff]
    rw [same, List.filter_eq]
    by_cases member : (room, user) ∈ subscribers
    · rw [List.count_eq_one_of_mem keys member]
      simp [member]
    · rw [List.count_eq_zero_of_not_mem member]
      simp [member]

theorem indexRows_eq (rooms : Rooms db.rooms db.roomSubscribers) (user : UserId)
    (start : Option RoomId) :
    indexRows db user start = (List.insertionSort (fun a b : RoomHead => a.room ≤ b.room)
      ((db.rooms.filter fun r => db.isSubscribed r.roomId user &&
        start.all fun room => room < r.roomId).map (headOf db))).take 101 := by
  unfold indexRows
  congr 2
  simp only [join_row rooms.keys]
  induction db.rooms with
  | nil => rfl
  | cons r rest ih =>
    rw [List.flatMap_cons, List.filter_cons, ih]
    have test : ((r.roomId, user) ∈ db.roomSubscribers ∧
        (start.all fun room => room < r.roomId) = true) ↔
        (db.isSubscribed r.roomId user && start.all fun room => room < r.roomId) = true := by
      rw [Bool.and_eq_true, isSubscribed_iff]
    by_cases chosen : (db.isSubscribed r.roomId user &&
        start.all fun room => room < r.roomId) = true
    · rw [if_pos (test.mpr chosen), if_pos chosen]
      rfl
    · rw [if_neg (fun both => chosen (test.mp both)), if_neg chosen]
      rfl

theorem indexRows_rooms (rooms : Rooms db.rooms db.roomSubscribers) (user : UserId)
    (start : Option RoomId) :
    (indexRows db user start).map RoomHead.room =
      ((indexView db user).filter (beyond id start)).take 101 := by
  rw [indexRows_eq rooms, List.map_take, List.map_insertionSort _ (· ≤ ·) _ _ (by simp)]
  refine congrArg (List.take 101) ?_
  refine List.Perm.eq_of_pairwise' (List.pairwise_insertionSort _ _)
    ((List.pairwise_insertionSort _ _).filter _) ?_
  refine (List.perm_insertionSort _ _).trans ?_
  refine List.Perm.trans ?_ ((List.perm_insertionSort _ _).filter _).symm
  rw [List.map_map, List.filter_map, List.filter_filter]
  refine List.Perm.of_eq (congrArg _ (List.filter_congr fun r _ => ?_))
  simp [beyond, Bool.and_comm]

theorem indexRows_mem (rooms : Rooms db.rooms db.roomSubscribers) {start : Option RoomId}
    {h : RoomHead} (member : h ∈ indexRows db user start) : ∃ r ∈ db.rooms, h = headOf db r := by
  rw [indexRows_eq rooms] at member
  have listed := (List.mem_insertionSort _).mp (List.mem_of_mem_take member)
  obtain ⟨r, inside, rfl⟩ := List.mem_map.mp listed
  exact ⟨r, (List.mem_filter.mp inside).1, rfl⟩

theorem syncIndex_page (valid : Rooms db.rooms db.roomSubscribers) (user : UserId)
    (start : Option RoomId) :
    ∃ rooms more, syncIndex db user start = .syncIndex rooms more ∧ rooms.length ≤ pageSize ∧
      (∀ h ∈ rooms, ∃ r ∈ db.rooms, h = headOf db r) ∧
      IsPage id (indexView db user) start (rooms.map RoomHead.room) more := by
  refine ⟨_, _, rfl, List.length_take_le _ _, fun h member =>
    indexRows_mem valid (List.mem_of_mem_take member), ?_⟩
  have ids := indexRows_rooms valid user start
  have count : (indexRows db user start).length =
      min 101 ((indexView db user).filter (beyond id start)).length := by
    rw [← List.length_map, ids, List.length_take]
  have size : pageSize = 100 := rfl
  rw [List.map_take, ids, List.take_take, count]
  refine ⟨List.take_prefix _ _, fun last => ?_, fun more => ⟨fun none => ?_, fun all => ?_⟩⟩
  · rw [decide_eq_false_iff_not] at last
    exact List.take_of_length_le (by omega)
  · rw [decide_eq_true_eq] at more
    have length := congrArg List.length none
    rw [List.length_take, List.length_nil] at length
    omega
  · rw [decide_eq_true_eq] at more
    have length := congrArg List.length all
    rw [List.length_take] at length
    omega

end Grotto.Relay.Pages
