/- GID: Grotto/Relay/Receipts
   digest: Receipts are journaled once for each delivered record and touch nothing else. -/

import Grotto.Relay.Executions
import Grotto.Relay.Heads
import Grotto.Relay.WelcomePage

set_option autoImplicit false

namespace Grotto.Relay.Receipts

open Format.Varint (Bytes)
open Format.Postcard (Octets)
open Protocol.Records Protocol.Wire Protocol.Transcripts
open Protocol.Sizes
open Storage Deliver Steps Invariant
open Log Heads Executions
open WelcomePage (cave createCall)

def recordsReceipt (row : RequestRow) : Bool :=
  match decodeMessage Response row.response with
  | .ok .acknowledged => true
  | _ => false

theorem recordsReceipt_iff {row : RequestRow} :
    recordsReceipt row = true ↔ decodeMessage Response row.response = .ok .acknowledged := by
  unfold recordsReceipt
  split
  · rename_i same
    simp [same]
  · rename_i other
    simpa using other

def receiptRows (user : UserId) (db : Db) : List RequestRow :=
  db.deliveryRequests.filter fun row => decide (row.userId = user) && recordsReceipt row

def deliverable (user : UserId) (db : Db) : List EventRow :=
  db.deliveryEvents.filter fun row => db.isSubscribed row.room user

def addressed (user : UserId) (db : Db) : List WelcomeRow :=
  db.deliveryWelcomes.filter fun row => decide (row.recipient = user)

/-- The identifiers under which the records delivered to a user can be acknowledged. -/
def receiptIds (sha256 : Hash) (user : UserId) (db : Db) : List MessageId :=
  ((deliverable user db).map fun row => acknowledgementId sha256 user [row.eventId] []) ++
    (addressed user db).map fun row => acknowledgementId sha256 user [] [UInt64.ofNat row.cursor]

variable {sha256 : Hash} {db next : Db} {here : Surroundings} {user : UserId} {id : MessageId}
  {request : Request} {response : Response}

section Journaling

theorem receiptIds_mono (grown : Extends db next) (user : UserId) :
    receiptIds sha256 user db ⊆ receiptIds sha256 user next := by
  refine List.append_subset.mpr ⟨List.subset_append_of_subset_left _ (List.map_subset _ ?_),
    List.subset_append_of_subset_right _ (List.map_subset _ ?_)⟩
  · intro row listed
    obtain ⟨member, subscribed⟩ := List.mem_filter.mp listed
    exact List.mem_filter.mpr ⟨grown.events.subset member, isSubscribed_mono grown subscribed⟩
  · intro row listed
    obtain ⟨member, mine⟩ := List.mem_filter.mp listed
    exact List.mem_filter.mpr ⟨grown.welcomes.subset member, mine⟩

theorem isAcknowledge_iff (executes : Executes sha256 here db user id request response next) :
    request.isAcknowledge = true ↔ response = .acknowledged := by
  refine ⟨executes.settles.2, fun answered => ?_⟩
  subst answered
  obtain ⟨wire, bytes, after, -, -, executed, -⟩ := executes.charged
  have durable := executes.durable
  cases execute_writes executed with
  | read read =>
    rw [durable] at read
    cases read
  | acknowledged => rfl

theorem receiptValid_of_executes
    (executes : Executes sha256 here db user id request response
      (deliver sha256 here db user id request).2) :
    receiptValid sha256 user id request = true := by
  by_contra refused
  obtain ⟨wire, bytes, after, encoded, -, -, final⟩ := executes.charged
  have dropped : (deliver sha256 here db user id request).2 = db := by
    simp only [deliver, executes.working, transact, encoded, executes.unused, perform]
    rw [if_pos refused]
  rw [dropped] at final
  have longer := congrArg (fun d : Db => d.deliveryRequests.length) final
  simp at longer

theorem welcome_of_acknowledged {cursor : UInt64}
    (answered : acknowledgeWelcomes db user [cursor] = .ok .acknowledged) :
    ∃ row ∈ addressed user db, row.cursor = cursor.toNat := by
  unfold acknowledgeWelcomes Storage.bindU64 at answered
  split at answered
  · simp only [bind, Except.bind] at answered
    split at answered
    · rename_i found
      obtain ⟨row, member, named⟩ := List.any_eq_true.mp found
      obtain ⟨same, mine⟩ := of_decide_eq_true named
      exact ⟨row, List.mem_filter.mpr ⟨member, decide_eq_true mine⟩, same⟩
    · cases answered
  · cases answered

theorem mem_receiptIds {events : List MessageId} {welcomes : List UInt64}
    (valid : receiptValid sha256 user id (.acknowledge events welcomes) = true)
    (answered : acknowledge db user events welcomes = .ok .acknowledged) :
    id ∈ receiptIds sha256 user db := by
  obtain ⟨single, rfl⟩ := of_decide_eq_true valid
  unfold acknowledge at answered
  rw [single, if_neg (by decide)] at answered
  split at answered
  · rename_i present
    rcases Nat.add_eq_one_iff.mp single with ⟨noEvent, oneWelcome⟩ | ⟨oneEvent, noWelcome⟩
    · obtain rfl := List.length_eq_zero_iff.mp noEvent
      obtain ⟨cursor, rfl⟩ := List.length_eq_one_iff.mp oneWelcome
      obtain ⟨row, listed, same⟩ := welcome_of_acknowledged answered
      refine List.mem_append_right _ (List.mem_map.mpr ⟨row, listed, ?_⟩)
      rw [same, UInt64.ofNat_toNat]
    · obtain ⟨event, rfl⟩ := List.length_eq_one_iff.mp oneEvent
      obtain rfl := List.length_eq_zero_iff.mp noWelcome
      obtain ⟨row, member, named⟩ := List.any_eq_true.mp (List.all_eq_true.mp present event (by simp))
      obtain ⟨rfl, subscribed⟩ := of_decide_eq_true named
      exact List.mem_append_left _
        (List.mem_map.mpr ⟨row, List.mem_filter.mpr ⟨member, subscribed⟩, rfl⟩)
  · cases answered

/-- Every journaled receipt names a record that was delivered to its user. -/
def Founded (sha256 : Hash) (db : Db) : Prop :=
  ∀ row ∈ db.deliveryRequests, recordsReceipt row = true →
    row.requestId ∈ receiptIds sha256 row.userId db

theorem Founded.executes {c : Call} (before : Founded sha256 db) (valid : Valid sha256 db)
    (executes : Executes sha256 c.here db c.user c.id c.request response (c.after sha256 db)) :
    Founded sha256 (c.after sha256 db) := by
  have grown : Extends db (c.after sha256 db) :=
    extends_deliver sha256 c.here db c.user c.id c.request
  have canonical : receiptValid sha256 c.user c.id c.request = true :=
    receiptValid_of_executes executes
  obtain ⟨wire, bytes, next, encoded, kept, executed, final⟩ := executes.charged
  intro row listed receipt
  refine receiptIds_mono grown row.userId ?_
  rw [final] at listed
  rcases List.mem_append.mp listed with old | new
  · exact before row old receipt
  obtain rfl := List.mem_singleton.mp new
  have within := Writes.within valid.toTables (execute_writes executed) executes.durable
  have decoded := decodeMessage_encodeMessage kept ((bounded_response response).mpr within)
  have same : response = .acknowledged :=
    Except.ok.inj (decoded.symm.trans (recordsReceipt_iff.mp receipt))
  subst same
  have isReceipt := (isAcknowledge_iff executes).mpr rfl
  generalize c.request = request at canonical executed isReceipt
  cases request with
  | acknowledge events welcomes => exact mem_receiptIds canonical (map_unchanged executed).1
  | _ => cases isReceipt

theorem receipts_le (founded : Founded sha256 db) (valid : Valid sha256 db) (user : UserId) :
    (receiptRows user db).length ≤ (deliverable user db).length + (addressed user db).length := by
  -- The rows of one user differ in their identifiers, and each of these belongs to a record.
  have distinct : ((receiptRows user db).map RequestRow.requestId).Nodup := by
    have keys := valid.journal.keys.sublist
      (List.Sublist.map _ (List.filter_sublist (p := fun row : RequestRow =>
        decide (row.userId = user) && recordsReceipt row)))
    refine List.Nodup.of_map (fun id => (user, id)) ?_
    rw [List.map_map]
    refine (List.map_congr_left fun row listed => ?_) ▸ keys
    have mine := (Bool.and_eq_true_iff.mp (List.mem_filter.mp listed).2).1
    exact congrArg (·, row.requestId) (of_decide_eq_true mine)
  have named : (receiptRows user db).map RequestRow.requestId ⊆ receiptIds sha256 user db := by
    intro id listed
    obtain ⟨row, member, rfl⟩ := List.mem_map.mp listed
    obtain ⟨inside, both⟩ := List.mem_filter.mp member
    obtain ⟨mine, receipt⟩ := Bool.and_eq_true_iff.mp both
    obtain rfl := of_decide_eq_true mine
    exact founded row inside receipt
  have bound := distinct.length_le_of_subset named
  simpa [receiptIds] using bound

end Journaling

section Reading

variable {rows : List RequestRow}

theorem tables_after_receipt (sha256 : Hash) (here : Surroundings) (db : Db) (user : UserId)
    (id : MessageId) (events : List MessageId) (welcomes : List UInt64) :
    ∃ rows, (deliver sha256 here db user id (.acknowledge events welcomes)).2 =
        { db with deliveryRequests := db.deliveryRequests ++ rows } ∧
      ∀ row ∈ rows, (row.userId, row.requestId) = (user, id) := by
  rcases deliver_changes sha256 here db user id (.acknowledge events welcomes) with
    same | ⟨response, -, executes⟩
  · refine ⟨[], ?_, fun _ listed => absurd listed List.not_mem_nil⟩
    rw [same, List.append_nil]
  · obtain ⟨wire, bytes, next, -, -, executed, final⟩ := executes.charged
    obtain ⟨-, rfl⟩ := map_unchanged executed
    refine ⟨[⟨user, id, sha256 wire, bytes⟩], final, fun row listed => ?_⟩
    rw [List.mem_singleton.mp listed]

theorem savedRequest_append (other : ∀ row ∈ rows, (row.userId, row.requestId) ≠ (user, id)) :
    ({ db with deliveryRequests := db.deliveryRequests ++ rows } : Db).savedRequest user id =
      db.savedRequest user id := by
  unfold Db.savedRequest
  rw [List.find?_append]
  have absent : rows.find? (fun row => decide (row.userId = user ∧ row.requestId = id)) = none := by
    refine List.find?_eq_none.mpr fun row listed found => other row listed ?_
    obtain ⟨mine, named⟩ := of_decide_eq_true found
    rw [mine, named]
  rw [absent, Option.or_none]

theorem answer_of_transact (working : here.fault = none) :
    (deliver sha256 here db user id request).1 =
      (transact sha256 here db user id request).map Prod.fst := by
  unfold deliver
  rw [working]
  rcases transact sha256 here db user id request with e | ⟨response, kept⟩
  · rfl
  · cases kept <;> rfl

theorem perform_read (read : request.isRead = true) (wire : Bytes) :
    (perform sha256 here db user id request wire).map Prod.fst =
      (execute here db user id request).map Prod.fst := by
  have canonical : receiptValid sha256 user id request = true := by
    cases request <;> first | rfl | cases read
  have plain : request.isAcknowledge = false := by
    cases request <;> first | rfl | cases read
  unfold perform admission
  rw [if_neg (not_not.mpr canonical), read, plain]
  rcases execute here db user id request with e | ⟨response, next⟩ <;> simp [Except.map]

theorem map_fst_unchanged (result : Except StorageError Response) (db : Db) :
    (result.map (·, db)).map Prod.fst = result := by
  cases result <;> rfl

theorem read_of_requests (read : request.isRead = true)
    (other : ∀ row ∈ rows, (row.userId, row.requestId) ≠ (user, id)) :
    (deliver sha256 here { db with deliveryRequests := db.deliveryRequests ++ rows } user id
      request).1 = (deliver sha256 here db user id request).1 := by
  cases fault : here.fault with
  | some fault => simp [deliver, fault]
  | none =>
    rw [answer_of_transact fault, answer_of_transact fault]
    unfold transact
    rw [savedRequest_append other]
    split
    · rfl
    split
    · split
      · rfl
      · rfl
    rw [perform_read read, perform_read read]
    cases request with
    | fetchRoomEvents room start =>
      exact (map_fst_unchanged _ _).trans (map_fst_unchanged _ _).symm
    | fetchWelcomes start =>
      exact (map_fst_unchanged _ _).trans (map_fst_unchanged _ _).symm
    | syncIndex start => rfl
    | _ => cases read

end Reading

/-- In every state the calls can reach: the journal rows of a user that record a receipt are no more
than the events of the user's rooms and the Welcomes addressed to the user together; a row records a
receipt exactly if its call was one; and whatever receipt is delivered next, no other table changes,
nor the answer of any read under another identifier. -/
theorem receipts_bounded (sha256 : Hash) (calls : List Call) :
    (∀ user, (receiptRows user (runCalls sha256 Db.empty calls)).length ≤
      (deliverable user (runCalls sha256 Db.empty calls)).length +
        (addressed user (runCalls sha256 Db.empty calls)).length) ∧
    List.Forall₂ (fun execution row => Journaled sha256 execution row ∧
        recordsReceipt row = execution.1.request.isAcknowledge)
      (executions sha256 Db.empty calls) (runCalls sha256 Db.empty calls).deliveryRequests ∧
    ∀ here user id events welcomes,
      (∃ rows, (deliver sha256 here (runCalls sha256 Db.empty calls) user id
          (.acknowledge events welcomes)).2 =
        { runCalls sha256 Db.empty calls with deliveryRequests := rows }) ∧
      ∀ there reader other request, request.isRead = true → (reader, other) ≠ (user, id) →
        (deliver sha256 there (deliver sha256 here (runCalls sha256 Db.empty calls) user id
          (.acknowledge events welcomes)).2 reader other request).1 =
        (deliver sha256 there (runCalls sha256 Db.empty calls) reader other request).1 := by
  have valid := (Valid.empty sha256).runCalls calls
  have founded : Founded sha256 (runCalls sha256 Db.empty calls) :=
    executions_induction (motive := fun _ db => Founded sha256 db) calls
      (fun _ listed => absurd listed List.not_mem_nil)
      fun done db c response _ before valid executes => before.executes valid executes
  refine ⟨receipts_le founded valid, ?_, fun here user id events welcomes => ?_⟩
  · have kinds : ∀ execution ∈ executions sha256 Db.empty calls,
        (execution.1.request.isAcknowledge = true ↔ execution.2 = .acknowledged) := by
      refine executions_induction (motive := fun done _ => ∀ execution ∈ done,
        (execution.1.request.isAcknowledge = true ↔ execution.2 = .acknowledged)) calls
        (fun _ listed => absurd listed List.not_mem_nil) ?_
      intro done db c response _ before _ executes execution listed
      rcases List.mem_append.mp listed with old | new
      · exact before execution old
      · rw [List.mem_singleton.mp new]
        exact isAcknowledge_iff executes
    refine ((List.forall₂_and_left _ _).mpr ⟨kinds, journaled_executions sha256 calls⟩).imp ?_
    rintro execution row ⟨kind, journaled⟩
    refine ⟨journaled, Bool.eq_iff_iff.mpr ?_⟩
    rw [recordsReceipt_iff, journaled.response, kind, Except.ok.injEq]
  · obtain ⟨rows, after, own⟩ :=
      tables_after_receipt sha256 here (runCalls sha256 Db.empty calls) user id events welcomes
    refine ⟨⟨_, after⟩, fun there reader other request read apart => ?_⟩
    rw [after]
    exact read_of_requests read fun row listed same => apart (same.symm.trans (own row listed))

def remarkId : MessageId := ⟨Octets.replicate 16 0x12⟩

def spoken : Db := runCalls leadingBytes Db.empty
  [createCall, ⟨idle, alice, remarkId, .appendRoomOperation ⟨cave, 0, 0, .application, [1], none⟩⟩]

def receipt : Call :=
  ⟨idle, alice, acknowledgementId leadingBytes alice [remarkId] [], .acknowledge [remarkId] []⟩

/-- The identifier of a receipt is spent: a read under it is answered before the receipt, and refused
after it. -/
theorem receipt_spends_identifier :
    receipt.answer leadingBytes spoken = .ok .acknowledged ∧
    (deliver leadingBytes idle spoken alice receipt.id (.fetchRoomEvents cave 0)).1 =
      .ok (.roomEvents cave 0 [⟨remarkId, alice, ⟨cave, 0, 0, .application, [1], none⟩⟩] false) ∧
    (deliver leadingBytes idle (receipt.after leadingBytes spoken) alice receipt.id
      (.fetchRoomEvents cave 0)).1 = .ok (.rejected .requestConflict) := by
  decide +kernel

end Grotto.Relay.Receipts
