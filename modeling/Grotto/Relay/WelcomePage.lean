/- GID: Grotto/Relay/WelcomePage
   digest: When a page of Welcomes fits the wire, and a reachable page that does not. -/

import Grotto.Relay.Recovery

set_option autoImplicit false

namespace Grotto.Relay.WelcomePage

open Format.Varint
open Format.Postcard (Octets)
open Base.Paging
open Protocol.Records Protocol.Wire Protocol.Transcripts Protocol.Sizes
open Storage Deliver Steps Invariant
open Pages Recovery

/-- A recipient's stored rows above a cursor, in the order of the table, which is that of the cursors. -/
def waiting (db : Db) (user : UserId) (start : UInt64) : List WelcomeRow :=
  db.deliveryWelcomes.filter fun row => row.recipient = user ∧ start.toNat < row.cursor

def storedBytes (rows : List WelcomeRow) : Nat := (rows.map fun row => row.record.length).sum

/-- What the cursors add to rows that were stored with the cursor zero, of one byte. -/
def widening (rows : List WelcomeRow) : Nat := (rows.map fun row => varintSize 10 row.cursor - 1).sum

/-- However many of the rows a page may take, their cursors fit into what is left of the 96 bytes kept
back and of the budget. -/
def LeavesRoom (start : UInt64) (rows : List WelcomeRow) : Prop :=
  ∀ n ≤ pageSize, storedBytes (rows.take n) ≤ pageBudget →
    varintSize 10 start.toNat + widening (rows.take n) ≤ 76 + (pageBudget - storedBytes (rows.take n))

private theorem delivered_size {row : WelcomeRow} {w : WelcomeDelivery}
    (delivers : DeliversWelcome row w) :
    (welcomeDelivery wire).size w = row.record.length + varintSize 10 row.cursor - 1 := by
  obtain ⟨cursor, stored, holds, equal⟩ := delivers
  have length : row.record.length = (welcomeDelivery wire).size stored :=
    welcome_record_length holds
  rw [length, equal, size_welcomeDelivery, size_welcomeDelivery, ← cursor, holds.cursor]
  have zero : varintSize 10 (UInt64.toNat 0) = 1 := by decide
  rw [zero]
  dsimp only
  omega

variable {rows : List WelcomeRow} {welcomes : List WelcomeDelivery}

private theorem sum_of_forall₂ (related : List.Forall₂ DeliversWelcome rows welcomes) :
    (welcomes.map (welcomeDelivery wire).size) =
      rows.map fun row => row.record.length + varintSize 10 row.cursor - 1 := by
  rw [← List.forall₂_eq_eq_eq]
  refine List.forall₂_map_right_iff.mpr (List.forall₂_map_left_iff.mpr ?_)
  exact related.flip.imp fun _ _ delivers => delivered_size delivers

variable {here : Surroundings}

private theorem sum_widened (rows : List WelcomeRow) :
    (rows.map fun row => row.record.length + varintSize 10 row.cursor - 1).sum =
      storedBytes rows + widening rows := by
  unfold storedBytes widening
  rw [← List.sum_map_add]
  refine congrArg List.sum (List.map_congr_left fun row _ => ?_)
  have positive : 0 < varintSize 10 row.cursor := varintSize_pos 9 _
  omega

theorem size_welcomesReply {sha256 : Hash} {db : Db} (valid : Valid sha256 db) {user : UserId}
    (id : MessageId) {start : UInt64} {more : Bool}
    (answered : (deliver sha256 here db user id (.fetchWelcomes start)).1 =
      .ok (.welcomes start welcomes more)) :
    ∃ page, page = pageOf (fun row => row.record.length) (waiting db user start) ∧
      wireSize (RelayMessage.delivery id (.welcomes start welcomes more)) =
        20 + varintSize 10 start.toNat + (storedBytes page + widening page) := by
  obtain ⟨-, page, related, paged⟩ := welcomes_answer valid answered
  have count : varintSize 10 welcomes.length = 1 := by
    have few := paged.count
    have hundred : pageSize = 100 := rfl
    have length := related.length_eq
    have least : 0 < varintSize 10 welcomes.length := varintSize_pos 9 _
    have most : varintSize 10 welcomes.length ≤ 1 := varintSize_le (k := 0) (by omega)
    omega
  refine ⟨page, paged.cut_eq.trans (congrArg _ ?_), ?_⟩
  · rw [List.filter_filter]
    refine List.filter_congr fun row _ => ?_
    rw [Bool.decide_and, Bool.and_comm]
  · rw [size_deliveryReply, ← sum_widened, ← sum_of_forall₂ related]
    simp only [fieldsSize]
    omega

private theorem sum_le_of_prefix {ρ : Type} (f : ρ → Nat) {front rows : List ρ} (front_of : front <+: rows) :
    (front.map f).sum ≤ (rows.map f).sum :=
  (front_of.sublist.map f).sum_le_sum fun _ _ => Nat.zero_le _

/-- The page is the longest front part within its limits, so every other one needs less room. -/
theorem encodes_iff_leavesRoom {sha256 : Hash} {db : Db} (valid : Valid sha256 db)
    {user : UserId} (id : MessageId) {start : UInt64} {more : Bool}
    (answered : (deliver sha256 here db user id (.fetchWelcomes start)).1 =
      .ok (.welcomes start welcomes more)) :
    (∃ reply, encodeMessage (RelayMessage.delivery id (.welcomes start welcomes more)) = .ok reply) ↔
      LeavesRoom start (waiting db user start) := by
  obtain ⟨page, cut, size⟩ := size_welcomesReply valid id answered
  have encodes : (∃ reply, encodeMessage (RelayMessage.delivery id (.welcomes start welcomes more)) =
      .ok reply) ↔ wireSize (RelayMessage.delivery id (.welcomes start welcomes more)) ≤ maxPayload :=
    ⟨fun ⟨_, encoded⟩ => (encodeMessage_ok.mp encoded).1, fun fits => ⟨_, encodeMessage_of_le fits⟩⟩
  have budget : maxPayload = pageBudget + 96 := by decide
  have count : page.length ≤ pageSize := by
    rw [cut]
    simpa using cut_length pageSize pageBudget _ (Nat.zero_le _) 0 (waiting db user start)
  have bytes : storedBytes page ≤ pageBudget := by
    rw [cut]
    simpa [storedBytes] using cut_size pageSize pageBudget _ (Nat.zero_le _) 0 (waiting db user start)
  have front : page = (waiting db user start).take page.length := by
    have fronts : page <+: waiting db user start := cut ▸ cut_prefix _ _ _ _ _ _
    exact List.prefix_iff_eq_take.mp fronts
  rw [encodes, size, budget]
  constructor
  · intro fits n few small
    have within : (waiting db user start).take n <+: page := by
      rw [cut]
      exact take_prefix_cut _ _ _ (by omega) (by simpa [storedBytes] using small)
    have fewerBytes : storedBytes ((waiting db user start).take n) ≤ storedBytes page :=
      sum_le_of_prefix _ within
    have narrower : widening ((waiting db user start).take n) ≤ widening page :=
      sum_le_of_prefix _ within
    omega
  · intro room
    have last := room page.length count
    rw [← front] at last
    have spare := last bytes
    omega

/-- The reply of a reachable relay to a fetch of Welcomes encodes exactly if the recipient's stored rows
leave room for their cursors. It is enough, whatever their sizes, that the cursors of the first hundred
widen them by at most 76 bytes less the length of the cursor asked for. -/
theorem welcome_reply_encodes_iff (sha256 : Hash) (calls : List Call) (here : Surroundings)
    (user : UserId) (id : MessageId) (start : UInt64) (welcomes : List WelcomeDelivery) (more : Bool)
    (answered : (deliver sha256 here (runCalls sha256 Db.empty calls) user id
      (.fetchWelcomes start)).1 = .ok (.welcomes start welcomes more)) :
    ((∃ reply, encodeMessage (RelayMessage.delivery id (.welcomes start welcomes more)) = .ok reply) ↔
      LeavesRoom start (waiting (runCalls sha256 Db.empty calls) user start)) ∧
    (widening ((waiting (runCalls sha256 Db.empty calls) user start).take pageSize) ≤
        76 - varintSize 10 start.toNat →
      ∃ reply, encodeMessage (RelayMessage.delivery id (.welcomes start welcomes more)) = .ok reply) := by
  have exact' := encodes_iff_leavesRoom ((Valid.empty sha256).runCalls calls) id answered
  refine ⟨exact', fun narrow => exact'.mpr fun n few small => ?_⟩
  have first : (waiting (runCalls sha256 Db.empty calls) user start).take n <+:
      (waiting (runCalls sha256 Db.empty calls) user start).take pageSize :=
    List.take_prefix_take_left few
  have narrower : widening ((waiting (runCalls sha256 Db.empty calls) user start).take n) ≤
      widening ((waiting (runCalls sha256 Db.empty calls) user start).take pageSize) :=
    sum_le_of_prefix _ first
  have digits : varintSize 10 start.toNat ≤ 10 :=
    varintSize_le (k := 9) (by have := start.toNat_lt; omega)
  omega

section Invitation

variable {sha256 : Hash} {db : Db} {user : UserId} {id : MessageId}
  {operation : Append} {welcome : WelcomeAttachment} {room : RoomRow}

def invited (db : Db) (user : UserId) (id : MessageId) (operation : Append)
    (welcome : WelcomeAttachment) (room : RoomRow) : Db :=
  Db.subscribe
    { db with
      deliveryEvents := db.deliveryEvents ++
        [eventRow user id operation ((serde Event).encode ⟨id, user, operation⟩)]
      deliveryWelcomes := db.deliveryWelcomes ++
        [⟨db.lastCursor + 1, welcome.recipient,
          (serde WelcomeDelivery).encode (welcomeOf room.name user id operation welcome)⟩] }
    operation.room welcome.recipient

theorem publishWelcome_eq (db : Db) {stored : Bytes} {sequence : Nat}
    {target : RoomId} (found : db.rooms.find? (fun r => r.roomId = target) = some room)
    (space : db.lastCursor + 1 ≤ i64Max)
    (kept : encodeMessage (⟨room.name, 0, id, target, UInt64.ofNat sequence, user, welcome⟩ :
      WelcomeDelivery) = .ok stored) :
    publishWelcome db user id target sequence welcome = .ok (Db.subscribe
      { db with
        deliveryWelcomes := db.deliveryWelcomes ++
          [⟨db.lastCursor + 1, welcome.recipient, stored⟩] }
      target welcome.recipient) := by
  simp only [publishWelcome, found, encodeStored_ok.mpr kept, Db.insertWelcome, if_pos space, bind,
    Except.bind]

theorem execute_invitation (here : Surroundings) (tables : Tables db)
    (subscribed : db.isSubscribed operation.room user = true)
    (admissible : inadmissible operation = false)
    (atHead : db.head operation.room = operation.parent.toNat)
    (fresh : db.hasEvent id = false) (attached : operation.welcome = some welcome)
    (found : db.rooms.find? (fun r => r.roomId = operation.room) = some room)
    (space : db.lastCursor + 1 ≤ i64Max) :
    execute here db user id (.appendRoomOperation operation) =
      .ok (.appendAccepted ⟨id, user, operation⟩,
        invited db user id operation welcome room) := by
  have passed := admissible_of_not admissible
  have size := size_event_le (e := ⟨id, user, operation⟩) passed
  have record := encodeStored_ok.mpr (encodeMessage_of_le (Nat.le_of_add_right_le size))
  have inserted := insertEvent_next tables.log (eventRow user id operation
    ((serde Event).encode ⟨id, user, operation⟩)) (congrArg (· + 1) atHead.symm)
    passed.parent fresh
  have kept := encodeMessage_of_le (Nat.le_trans
    (size_welcome_le (w := welcomeOf room.name user id operation welcome)
      (tables.rooms.names room (List.mem_of_find?_eq_some found)) rfl
      (passed.welcome welcome attached).2) (by decide))
  have published := publishWelcome_eq
    { db with
      deliveryEvents := db.deliveryEvents ++
        [eventRow user id operation ((serde Event).encode ⟨id, user, operation⟩)] }
    found space kept
  simp only [eventRow] at inserted published
  simp only [execute, appendRoomOperation, subscribed, admissible, atHead, fresh, record, inserted,
    attached, published, bind, Except.bind]
  rw [if_neg (by simp), if_neg (by simp), if_neg (by simp), if_neg (by simp)]
  rfl

structure Leaves (db : Db) (user : UserId) (id : MessageId) (operation : Append)
    (welcome : WelcomeAttachment) (room : RoomRow) (bytes : Nat) (final : Db) : Prop where
  rooms : final.rooms = db.rooms
  subscribers : db.roomSubscribers <+: final.roomSubscribers
  events : final.deliveryEvents = db.deliveryEvents ++
    [eventRow user id operation ((serde Event).encode ⟨id, user, operation⟩)]
  welcomes : final.deliveryWelcomes = db.deliveryWelcomes ++
    [⟨db.lastCursor + 1, welcome.recipient,
      (serde WelcomeDelivery).encode (welcomeOf room.name user id operation welcome)⟩]
  requests : ∃ hash reply, final.deliveryRequests = db.deliveryRequests ++ [⟨user, id, hash, reply⟩]
  sender : final.usageSender = charge user bytes db.usageSender
  room : final.usageRoom = charge operation.room bytes db.usageRoom

theorem deliver_invitation {wire : Bytes} (valid : Valid sha256 db) (working : here.fault = none)
    (unused : db.savedRequest user id = none)
    (encoded : encodeMessage (Request.appendRoomOperation operation) = .ok wire)
    (admitted : admits here db user (.appendRoomOperation operation) = .ok true)
    (subscribed : db.isSubscribed operation.room user = true)
    (admissible : inadmissible operation = false)
    (atHead : db.head operation.room = operation.parent.toNat) (fresh : db.hasEvent id = false)
    (attached : operation.welcome = some welcome)
    (found : db.rooms.find? (fun r => r.roomId = operation.room) = some room)
    (space : db.lastCursor + 1 ≤ i64Max) :
    Leaves db user id operation welcome room (requiredBytes wire)
      (deliver sha256 here db user id (.appendRoomOperation operation)).2 := by
  have executed := execute_invitation here valid.toTables subscribed admissible atHead
    fresh attached found space
  have size := size_event_le (e := ⟨id, user, operation⟩) (admissible_of_not admissible)
  have reply : wireSize (Response.appendAccepted ⟨id, user, operation⟩) =
      wireSize (⟨id, user, operation⟩ : Event) + 1 := size_response _
  have answer := deliver_settled sha256 working encoded unused rfl admitted executed rfl
    ⟨rfl, nofun⟩ (encodeMessage_of_le (by omega))
  rw [answer]
  refine ⟨?_, ?_, ?_, ?_, ⟨_, _, rfl⟩, ?_, ?_⟩
  · exact subscribe_rooms _ _ _
  · refine List.IsPrefix.trans ?_ (subscribe_extends _ _ _)
    exact List.prefix_refl _
  · exact subscribe_events _ _ _
  · exact subscribe_welcomes _ _ _
  · exact congrArg (charge user _) (subscribe_usageSender _ _ _)
  · exact congrArg (charge operation.room _) (subscribe_usageRoom _ _ _)

end Invitation

variable {n : Nat}

section Overflow

variable {db : Db}

/-- One room, one guest and a Welcome body that makes a stored row one byte short of 8 KiB. -/
def cave : RoomId := ⟨Octets.replicate 16 0x22⟩

def guest : WelcomeAttachment := ⟨bob, List.replicate 8053 0, Octets.replicate 64 0⟩

def createCall : Call := ⟨idle, alice, ⟨Octets.replicate 16 0x10⟩, .createRoom "Cave"⟩

def numbered (i : Nat) : MessageId :=
  ⟨⟨UInt8.ofNat (i / 256) :: UInt8.ofNat (i % 256) :: List.replicate 14 0x44, by simp⟩⟩

def invitation (i : Nat) : Append := ⟨cave, UInt64.ofNat i, 0, .commit, [1], some guest⟩

def inviteCall (i : Nat) : Call := ⟨idle, alice, numbered i, .appendRoomOperation (invitation i)⟩

/-- A small Welcome, stored under the first cursor. -/
def welcoming : Append := ⟨cave, 0, 0, .commit, [1], some ⟨bob, [1], Octets.replicate 64 0⟩⟩

theorem greeting_encodes :
    ∃ reply, encodeMessage (RelayMessage.delivery firstId (.welcomes 0
      [⟨"Cave", 1, numbered 0, cave, 1, alice, bob, [1], Octets.replicate 64 0⟩] false)) = .ok reply :=
  (welcome_reply_encodes_iff leadingBytes
    [createCall, ⟨idle, alice, numbered 0, .appendRoomOperation welcoming⟩] idle bob firstId 0 _ false
    (by decide +kernel)).2 (by decide +kernel)

def inviteCalls (n : Nat) : List Call := createCall :: (List.range n).map inviteCall

def inviteRecord (i : Nat) : Bytes :=
  (serde WelcomeDelivery).encode (welcomeOf "Cave" alice (numbered i) (invitation i) guest)

theorem numbered_injective {i j : Nat} (left : i < 65536) (right : j < 65536)
    (same : numbered i = numbered j) : i = j := by
  have bytes := congrArg (fun id : MessageId => id.bytes.toList) same
  simp only [numbered, List.cons.injEq, and_true] at bytes
  have high := congrArg UInt8.toNat bytes.1
  have low := congrArg UInt8.toNat bytes.2
  simp only [UInt8.toNat_ofNat'] at high low
  omega

theorem numbered_ne_create (i : Nat) : numbered i ≠ createCall.id := by
  intro same
  have bytes := congrArg (fun id : MessageId => id.bytes.toList.drop 2) same
  simp [numbered, createCall, Octets.replicate] at bytes

structure Invited (n : Nat) (db : Db) : Prop where
  valid : Valid leadingBytes db
  rooms : db.rooms = [⟨cave, "Cave", alice⟩]
  subscribed : db.isSubscribed cave alice = true
  inCave : ∀ row ∈ db.deliveryEvents, row.room = cave
  events : db.deliveryEvents.map EventRow.eventId = (List.range n).map numbered
  welcomes : db.deliveryWelcomes =
    (List.range n).map fun i => ⟨i + 1, bob, inviteRecord i⟩
  requests : ∀ row ∈ db.deliveryRequests,
    row.requestId = createCall.id ∨ ∃ i < n, row.requestId = numbered i
  sender : ∃ used ≤ (n + 1) * 65536, usage db.usageSender alice = .ok used
  room : ∃ used ≤ n * 65536, usage db.usageRoom cave = .ok used

def foundedDb : Db where
  rooms := [⟨cave, "Cave", alice⟩]
  roomSubscribers := [(cave, alice)]
  usageSender := [(alice, 16402)]
  deliveryRequests :=
    [⟨alice, createCall.id, leadingBytes [0, 4, 67, 97, 118, 101], 0 :: List.replicate 16 0x22⟩]

theorem run_createCall : runCalls leadingBytes Db.empty [createCall] = foundedDb := by decide +kernel

theorem invited_zero : Invited 0 (runCalls leadingBytes Db.empty [createCall]) := by
  have valid := (Valid.empty leadingBytes).runCalls [createCall]
  rw [run_createCall] at valid ⊢
  refine ⟨valid, rfl, by decide, by simp [foundedDb], rfl, rfl, ?_, ⟨16402, by decide, by decide⟩,
    ⟨0, by decide, rfl⟩⟩
  intro row member
  obtain rfl := List.mem_singleton.mp member
  exact .inl rfl

theorem usage_charge {κ : Type} [DecidableEq κ] {ledger : List (κ × Nat)} {k : κ} {used bytes : Nat}
    (before : usage ledger k = .ok used) (small : used + bytes ≤ i64Max) :
    usage (charge k bytes ledger) k = .ok (used + bytes) := by
  induction ledger with
  | nil =>
    have zero : used = 0 := (Except.ok.inj before).symm
    subst zero
    have bound : bytes ≤ i64Max := by omega
    simp [charge, usage, bindU64, bound]
  | cons row rows ih =>
    unfold charge
    by_cases here : row.1 = k
    · rw [if_pos here]
      simp only [usage, List.find?_cons, here, decide_true, bindU64] at before ⊢
      split at before
      · obtain rfl := Except.ok.inj before
        rw [if_pos small]
      · simp at before
    · rw [if_neg here]
      simp only [usage, List.find?_cons, here, decide_false] at before ⊢
      exact ih before

private theorem size_invite (i : Nat) :
    wireSize (Request.appendRoomOperation (invitation i)) ≤ 8300 := by
  have parent := Grotto.Format.Postcard.size_u64_le (UInt64.ofNat i)
  have zero : varintSize 10 (UInt64.toNat 0) = 1 := by decide
  have one : varintSize 10 1 = 1 := by decide
  have body : varintSize 10 8053 = 2 := by decide
  rw [size_appendRequest, size_append]
  simp only [invitation, welcomeSize, guest, List.length_replicate, List.length_singleton, zero, one,
    body]
  omega

private theorem requiredBytes_le {bytes : Bytes} (small : bytes.length ≤ 8300) :
    requiredBytes bytes ≤ 65536 := by
  unfold requiredBytes saturatingAdd saturatingMul
  omega

private theorem saturatingAdd_le {a b c : Nat} (small : a + b ≤ c) : saturatingAdd a b ≤ c :=
  Nat.le_trans (Nat.min_le_left _ _) small

/-- The idle machine admits small requests while the ledgers are far from their limits. -/
theorem admit_idle {user : UserId} {request : Request} {wire : Bytes} {used : Nat}
    (encoded : encodeMessage request = .ok wire) (required : requiredBytes wire ≤ 100000)
    (sender : usage db.usageSender user = .ok used) (senderSmall : used ≤ 100000000)
    (room : ∀ r, chargeRoom request = some r →
      ∃ roomUsed ≤ 100000000, usage db.usageRoom r = .ok roomUsed) :
    admits idle db user request = .ok true := by
  have fits : wire.length ≤ maxPayload := by
    rw [length_of_encodeMessage encoded]
    exact (encodeMessage_ok.mp encoded).1
  have ledger : ∀ spent ≤ 100000000, saturatingAdd spent (requiredBytes wire) ≤ 104857600 :=
    fun spent bound => saturatingAdd_le (by omega)
  have ledgers : ledgersAdmit idle db user request (requiredBytes wire) = .ok true := by
    have senderLimit : idle.limits.sender.toNat = 104857600 := by decide
    have roomLimit : idle.limits.room.toNat = 104857600 := by decide
    simp only [ledgersAdmit, sender, bind, Except.bind, senderLimit,
      if_neg (Nat.not_lt.mpr (ledger used senderSmall))]
    split
    · rfl
    · rename_i r charged
      obtain ⟨roomUsed, roomSmall, known⟩ := room r charged
      simp only [known, roomLimit, ledger roomUsed roomSmall, decide_true]
      rfl
  have logical : saturatingMul idle.pageSize.toNat idle.pageCount.toNat = 65536 := by decide
  have globalLimit : idle.limits.global.toNat = 1073741824 := by decide
  have total : saturatingAdd 1073741824 idle.limits.reserve.toNat = 1140850688 := by decide
  have global : saturatingAdd 65536 (requiredBytes wire) ≤ 1073741824 :=
    saturatingAdd_le (by omega)
  have wal : saturatingAdd (saturatingAdd 65536 idle.wal.toNat) (requiredBytes wire) ≤ 1140850688 := by
    have none : saturatingAdd 65536 idle.wal.toNat = 65536 := by decide
    rw [none]
    exact saturatingAdd_le (by omega)
  have space : saturatingAdd idle.limits.reserve.toNat (requiredBytes wire) ≤ idle.freeBytes := by
    have reserve : idle.limits.reserve.toNat = 67108864 := by decide
    have free : idle.freeBytes = 1073741824 := rfl
    rw [reserve, free]
    exact saturatingAdd_le (by omega)
  simp only [admits, encoded, logical, total, globalLimit, ledgers, if_neg (Nat.not_lt.mpr fits),
    if_neg (Nat.not_lt.mpr global), if_neg (Nat.not_lt.mpr wal), ge_iff_le, space, decide_true,
    bind, Except.bind]
  rfl

private theorem parent_invite (small : n < 1000) : (invitation n).parent.toNat = n :=
  toNat_ofNat_i64 (Nat.le_trans (Nat.le_of_lt small) (by decide))

private theorem guest_length : guest.body.length = 8053 := List.length_replicate

private theorem admissible_invite (small : n < 1000) : inadmissible (invitation n) = false := by
  have parent := parent_invite small
  have bound : i64Max = 9223372036854775807 := by decide
  have early : ¬(invitation n).parent.toNat ≥ i64Max := by omega
  have body : guest.body.isEmpty = false := by
    rw [List.isEmpty_eq_false_iff]
    exact List.ne_nil_of_length_pos (by rw [guest_length]; omega)
  have plain : (invitation n).body = [1] := rfl
  have attached : (invitation n).welcome = some guest := rfl
  simp only [inadmissible, plain, attached, early, Option.any_some, Option.map_some,
    Option.getD_some, guest_length, body]
  decide

private theorem head_invite (state : Invited n db) : db.head cave = n := by
  have all : ofRoom db.deliveryEvents cave = db.deliveryEvents :=
    List.filter_eq_self.mpr fun row member => by simpa using state.inCave row member
  have count := congrArg List.length state.events
  rw [List.length_map, List.length_map, List.length_range] at count
  rw [state.valid.log.head_eq, all, count]

private theorem fresh_invite (state : Invited n db) (small : n < 1000) :
    db.hasEvent (numbered n) = false := by
  refine Bool.eq_false_iff.mpr fun found => ?_
  obtain ⟨row, member, same⟩ := List.any_eq_true.mp found
  have listed := List.mem_map_of_mem (f := EventRow.eventId) member
  rw [state.events] at listed
  obtain ⟨i, inside, equal⟩ := List.mem_map.mp listed
  have below := List.mem_range.mp inside
  have name : row.eventId = numbered n := by simpa using same
  have repeated := numbered_injective (by omega) (by omega) (equal.trans name)
  omega

private theorem unused_invite (state : Invited n db) (small : n < 1000) :
    db.savedRequest alice (numbered n) = none := by
  refine List.find?_eq_none.mpr fun row member taken => ?_
  have name : row.requestId = numbered n := by
    simp only [decide_eq_true_eq] at taken
    exact taken.2
  rcases state.requests row member with create | ⟨i, below, same⟩
  · exact numbered_ne_create n (name.symm.trans create)
  · have repeated := numbered_injective (by omega) (by omega) (same.symm.trans name)
    omega

private theorem cursor_invite (state : Invited n db) : db.lastCursor = n := by
  rw [state.valid.welcomes.lastCursor_eq, state.welcomes, List.length_map, List.length_range]

private theorem invite_leaves (state : Invited n db) (small : n < 1000) :
    ∃ bytes ≤ 65536, Leaves db alice (numbered n) (invitation n) guest ⟨cave, "Cave", alice⟩ bytes
      ((inviteCall n).after leadingBytes db) := by
  have size := size_invite n
  have encoded := encodeMessage_of_le (Nat.le_trans size (show 8300 ≤ maxPayload by decide))
  obtain ⟨sender, senderSmall, senderUsed⟩ := state.sender
  obtain ⟨room, roomSmall, roomUsed⟩ := state.room
  have required := (requiredBytes_le size).trans (show 65536 ≤ 100000 by decide)
  have admitted := admit_idle encoded required senderUsed (by omega) fun r same =>
    ⟨room, by omega, Option.some.inj same ▸ roomUsed⟩
  have space : db.lastCursor + 1 ≤ i64Max := by
    have bound : i64Max = 9223372036854775807 := by decide
    rw [cursor_invite state]
    omega
  refine ⟨_, requiredBytes_le size, ?_⟩
  exact deliver_invitation state.valid rfl (unused_invite state small) encoded admitted
    state.subscribed (admissible_invite small)
    ((head_invite state).trans (parent_invite small).symm) (fresh_invite state small) rfl
    (by rw [state.rooms]; rfl) space

theorem invited_succ (state : Invited n db) (small : n < 1000) :
    Invited (n + 1) ((inviteCall n).after leadingBytes db) := by
  have valid : Valid leadingBytes ((inviteCall n).after leadingBytes db) :=
    state.valid.deliver idle alice (numbered n) _
  have bound : i64Max = 9223372036854775807 := by decide
  obtain ⟨bytes, cheap, leaves⟩ := invite_leaves state small
  generalize (inviteCall n).after leadingBytes db = final at leaves valid ⊢
  obtain ⟨sender, senderSmall, senderUsed⟩ := state.sender
  obtain ⟨room, roomSmall, roomUsed⟩ := state.room
  refine ⟨valid, leaves.rooms.trans state.rooms, ?_, ?_, ?_, ?_, ?_, ?_, ?_⟩
  · exact isSubscribed_iff.mpr (leaves.subscribers.subset (isSubscribed_iff.mp state.subscribed))
  · intro row member
    rw [leaves.events] at member
    rcases List.mem_append.mp member with old | new
    · exact state.inCave row old
    · rw [List.mem_singleton.mp new]
      rfl
  · rw [leaves.events, List.map_append, state.events, List.range_succ, List.map_append]
    rfl
  · rw [leaves.welcomes, state.welcomes, cursor_invite state, List.range_succ, List.map_append]
    rfl
  · intro row member
    obtain ⟨hash, reply, appended⟩ := leaves.requests
    rw [appended] at member
    rcases List.mem_append.mp member with old | new
    · rcases state.requests row old with create | ⟨i, below, same⟩
      · exact .inl create
      · exact .inr ⟨i, by omega, same⟩
    · rw [List.mem_singleton.mp new]
      exact .inr ⟨n, by omega, rfl⟩
  · exact ⟨sender + bytes, by omega, leaves.sender ▸ usage_charge senderUsed (by omega)⟩
  · exact ⟨room + bytes, by omega, leaves.room ▸ usage_charge roomUsed (by omega)⟩

theorem invited_run (small : n ≤ 1000) :
    Invited n (runCalls leadingBytes Db.empty (inviteCalls n)) := by
  induction n with
  | zero => exact invited_zero
  | succ n ih =>
    have step := invited_succ (ih (by omega)) (by omega)
    have calls : inviteCalls (n + 1) = inviteCalls n ++ [inviteCall n] := by
      simp [inviteCalls, List.range_succ]
    rw [calls]
    simpa only [runCalls, List.foldl_append, List.foldl_cons, List.foldl_nil] using step

private theorem varintSize_two (low : 128 ≤ n) (high : n < 16384) : varintSize 10 n = 2 := by
  have most : varintSize 10 n ≤ 2 := varintSize_le (k := 1) (by omega)
  have least : varintSize 10 128 ≤ varintSize 10 n := varintSize_mono low
  have two : varintSize 10 128 = 2 := by decide
  omega

private theorem stored_size (op : Append) {attachment : WelcomeAttachment} {id : MessageId}
    (low : 127 ≤ op.parent.toNat) (high : op.parent.toNat < 1000)
    (length : attachment.body.length = 8053) :
    (welcomeDelivery wire).size (welcomeOf "Cave" alice id op attachment) = 8191 := by
  have sequence : (UInt64.ofNat (op.parent.toNat + 1)).toNat = op.parent.toNat + 1 :=
    toNat_ofNat_i64 (Nat.le_trans (Nat.succ_le_of_lt high) (by decide))
  have name : utf8Size "Cave" = 4 := by decide
  have one : varintSize 10 4 = 1 := by decide
  have zero : varintSize 10 (UInt64.toNat 0) = 1 := by decide
  have body : varintSize 10 8053 = 2 := by decide
  rw [size_welcomeDelivery, size_welcomeAttachment]
  simp only [welcomeOf, sequence, name, one, zero, length, body,
    varintSize_two (n := op.parent.toNat + 1) (by omega) (by omega)]

private theorem record_invite {i : Nat} (low : 127 ≤ i) (high : i < 1000) :
    (inviteRecord i).length = 8191 := by
  have parent := parent_invite high
  exact stored_size (invitation i) (by omega) (by omega) guest_length

private theorem waiting_above (state : Invited 223 db) :
    waiting db bob 127 = (List.range' 127 96).map fun i => ⟨i + 1, bob, inviteRecord i⟩ := by
  have split : List.range 223 = List.range' 0 127 ++ List.range' 127 96 := by
    rw [List.range_eq_range']
    exact (List.range'_append_1 (s := 0) (m := 127) (n := 96)).symm
  have start : UInt64.toNat 127 = 127 := by decide
  rw [waiting, start, state.welcomes, List.filter_map, split, List.filter_append]
  have early : (List.range' 0 127).filter ((fun row : WelcomeRow =>
      decide (row.recipient = bob ∧ 127 < row.cursor)) ∘
        fun i => ⟨i + 1, bob, inviteRecord i⟩) = [] := by
    refine List.filter_eq_nil_iff.mpr fun i member => ?_
    have bound := (List.mem_range'_1.mp member).2
    simp only [Function.comp_apply, true_and, decide_eq_true_eq]
    omega
  have late : (List.range' 127 96).filter ((fun row : WelcomeRow =>
      decide (row.recipient = bob ∧ 127 < row.cursor)) ∘
        fun i => ⟨i + 1, bob, inviteRecord i⟩) = List.range' 127 96 := by
    refine List.filter_eq_self.mpr fun i member => ?_
    have bound := (List.mem_range'_1.mp member).1
    simp only [Function.comp_apply, true_and, decide_eq_true_eq]
    omega
  rw [early, late, List.nil_append]

private theorem sum_constant {α : Type} {f : α → Nat} {l : List α} {c : Nat}
    (constant : ∀ a ∈ l, f a = c) : (l.map f).sum = l.length * c := by
  rw [List.map_congr_left constant]
  simp

private theorem no_room (state : Invited 223 db) : ¬LeavesRoom 127 (waiting db bob 127) := by
  have above := waiting_above state
  generalize rowsEq : (List.range' 127 96).map (fun i =>
    (⟨i + 1, bob, inviteRecord i⟩ : WelcomeRow)) = rows at above
  have count : rows.length = 96 := by rw [← rowsEq, List.length_map, List.length_range']
  have each : ∀ row ∈ rows, row.record.length = 8191 ∧ varintSize 10 row.cursor - 1 = 1 := by
    intro row member
    rw [← rowsEq] at member
    obtain ⟨i, within, rfl⟩ := List.mem_map.mp member
    obtain ⟨low, high⟩ := List.mem_range'_1.mp within
    exact ⟨record_invite low (by omega), by
      rw [varintSize_two (n := i + 1) (by omega) (by omega)]⟩
  have total : storedBytes rows = 96 * 8191 := count ▸ sum_constant fun row member => (each row member).1
  have wide : widening rows = 96 * 1 := count ▸ sum_constant fun row member => (each row member).2
  have budget : pageBudget = 96 * 8191 := by decide
  rw [above]
  intro room
  have whole := room 96 (by decide)
  rw [← count, List.take_length, total, wide, budget] at whole
  have spare := whole le_rfl
  omega

private theorem unused_first (state : Invited n db) : db.savedRequest bob firstId = none := by
  refine List.find?_eq_none.mpr fun row member found => ?_
  have name : row.requestId = firstId := by
    simp only [decide_eq_true_eq] at found
    exact found.2
  rcases state.requests row member with create | ⟨i, -, same⟩
  · exact absurd (create.symm.trans name) (by decide)
  · have bytes := congrArg (fun id => id.bytes.toList) (same.symm.trans name)
    simp [numbered, firstId, Octets.replicate] at bytes

/-- A reachable page of 96 Welcomes that no frame can hold: the stored rows meet the page budget
exactly, and their cursors widen the reply beyond the payload limit. -/
theorem welcome_page_overflows :
    ∃ welcomes more,
      (deliver leadingBytes idle (runCalls leadingBytes Db.empty (inviteCalls 223)) bob firstId
        (.fetchWelcomes 127)).1 = .ok (.welcomes 127 welcomes more) ∧
      ∀ reply, encodeMessage (RelayMessage.delivery firstId (.welcomes 127 welcomes more)) ≠
        .ok reply := by
  have state := invited_run (show 223 ≤ 1000 by decide)
  generalize runCalls leadingBytes Db.empty (inviteCalls 223) = db at state ⊢
  have unused := unused_first state
  obtain ⟨_, welcomes, more, answer, -⟩ :=
    fetchWelcomes_page state.valid.toTables bob (show UInt64.toNat 127 ≤ i64Max by decide)
  have executed : execute idle db bob firstId (.fetchWelcomes 127) =
      .ok (.welcomes 127 welcomes more, db) := by
    simp only [execute, answer]
    rfl
  have answered : (deliver leadingBytes idle db bob firstId (.fetchWelcomes 127)).1 =
      .ok (.welcomes 127 welcomes more) :=
    congrArg Prod.fst (deliver_read rfl unused rfl (by decide +kernel) executed)
  refine ⟨welcomes, more, answered, fun reply encoded => ?_⟩
  exact no_room state ((encodes_iff_leavesRoom state.valid firstId answered).mp ⟨reply, encoded⟩)

end Overflow

end Grotto.Relay.WelcomePage
