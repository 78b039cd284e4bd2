/- GID: Grotto/Client/OutboxPass
   digest: A pass over the outbox sends what stood there at its start, once each and in order. -/

import Grotto.Client.Termination

set_option autoImplicit false

namespace Grotto.Client.OutboxPass

open Format.Varint (Bytes)
open Protocol.Records Protocol.Wire
open Base.Keyed Base.Program Base.Program.Local Base.Execution
open Library Tables Calls
open Effects Habits Delivery Conduct Machine Termination

variable {mls : Mls} {α : Type}

variable {s t : Store mls}

section Table

variable {row : OutboxRow} {id : MessageId}

/-- The outbox as SQLite keeps it: rows in the order of their identifiers, which count from one, and
one row for a request. -/
structure Tabled (rows : List OutboxRow) : Prop where
  ascending : rows.Pairwise fun a b => a.rowid < b.rowid
  positive : ∀ row ∈ rows, 0 < row.rowid
  requests : (rows.map OutboxRow.requestId).Nodup

theorem Tabled.sublist {rows some : List OutboxRow} (tabled : Tabled rows) (part : some.Sublist rows) :
    Tabled some where
  ascending := tabled.ascending.sublist part
  positive row listed := tabled.positive row (part.subset listed)
  requests := tabled.requests.sublist (part.map _)

inductive Statement
  | save (id : MessageId) (kind : String) (message : Bytes)
  | remove (id : MessageId)

def Statement.carryOut (s : Store mls) : Statement → Store mls
  | .save id kind message => (s.saveOutbox id kind message).toOption.getD s
  | .remove id => s.removeOutbox id

theorem le_foldl_max (numbers : List Nat) (start : Nat) : start ≤ numbers.foldl max start := by
  induction numbers generalizing start with
  | nil => exact le_rfl
  | cons number numbers ih => exact (Nat.le_max_left start number).trans (ih _)

theorem mem_le_foldl_max {numbers : List Nat} {number : Nat} (listed : number ∈ numbers) (start : Nat) :
    number ≤ numbers.foldl max start := by
  induction numbers generalizing start with
  | nil => cases listed
  | cons first numbers ih =>
    rcases List.mem_cons.mp listed with rfl | later
    · exact (Nat.le_max_right start number).trans (le_foldl_max numbers _)
    · exact ih later _

theorem lt_nextRowid (listed : row ∈ s.outbox) : row.rowid < s.nextRowid :=
  Nat.lt_succ_of_le (mem_le_foldl_max (List.mem_map_of_mem listed) 0)

theorem carryOut_save (s : Store mls) (id : MessageId) (kind : String) (message : Bytes) :
    Statement.carryOut s (.save id kind message) = s ∨ s.findOutbox id = none ∧
      Statement.carryOut s (.save id kind message) =
        { s with outbox := s.outbox ++ [⟨s.nextRowid, id, kind, message⟩] } := by
  cases found : s.findOutbox id with
  | none =>
    right
    simp [Statement.carryOut, Store.saveOutbox, found, Except.toOption]
  | some row =>
    left
    simp only [Statement.carryOut, Store.saveOutbox, found]
    split
    · rfl
    · rfl

theorem Tabled.carryOut (tabled : Tabled s.outbox) (statement : Statement) :
    Tabled (statement.carryOut s).outbox := by
  cases statement with
  | remove id => exact tabled.sublist List.filter_sublist
  | save id kind message =>
    rcases carryOut_save s id kind message with same | ⟨absent, saved⟩
    · rw [same]
      exact tabled
    rw [saved]
    have unnamed : ∀ row ∈ s.outbox, row.requestId ≠ id := by
      intro row listed equal
      exact List.find?_eq_none.mp absent row listed (decide_eq_true equal)
    refine ⟨?_, ?_, ?_⟩
    · refine List.pairwise_append.mpr ⟨tabled.ascending, List.pairwise_singleton _ _, ?_⟩
      intro row listed last final
      rw [List.mem_singleton.mp final]
      exact lt_nextRowid listed
    · intro row listed
      rcases List.mem_append.mp listed with old | new
      · exact tabled.positive row old
      · rw [List.mem_singleton.mp new]
        exact Nat.succ_pos _
    · exact nodup_map_append tabled.requests unnamed

theorem tabled_run (statements : List Statement) (tabled : Tabled s.outbox) :
    Tabled (statements.foldl Statement.carryOut s).outbox := by
  induction statements generalizing s with
  | nil => exact tabled
  | cons statement statements ih => exact ih (tabled.carryOut statement)

def Statement.saved : Statement → Option MessageId
  | .save id _ _ => some id
  | .remove _ => none

theorem saved_in_order (s : Store mls) (statements : List Statement) :
    ((statements.foldl Statement.carryOut s).outbox.map OutboxRow.requestId).Sublist
      (s.outbox.map OutboxRow.requestId ++ statements.filterMap Statement.saved) := by
  induction statements generalizing s with
  | nil => exact List.sublist_append_left _ _
  | cons statement statements ih =>
    refine (ih _).trans ?_
    cases statement with
    | remove id =>
      exact (List.filter_sublist.map _).append (List.Sublist.refl _)
    | save id kind message =>
      have split : s.outbox.map OutboxRow.requestId ++
          (Statement.save id kind message :: statements).filterMap Statement.saved =
          s.outbox.map OutboxRow.requestId ++ [id] ++ statements.filterMap Statement.saved := by
        rw [List.append_assoc]
        rfl
      rw [split]
      refine List.Sublist.append ?_ (List.Sublist.refl _)
      rcases carryOut_save s id kind message with same | ⟨-, appended⟩
      · rw [same]
        exact List.sublist_append_left _ _
      · rw [appended, List.map_append]
        exact List.Sublist.refl _

theorem findOutbox_carryOut {statement : Statement}
    (found : s.findOutbox id = some row) (other : statement ≠ .remove id) :
    (statement.carryOut s).findOutbox id = some row := by
  cases statement with
  | remove removed =>
    have apart : removed ≠ id := fun same => other (congrArg Statement.remove same)
    change (s.outbox.filter _).find? _ = some row
    rw [List.find?_filter]
    refine Eq.trans ?_ found
    refine congrArg (List.find? · s.outbox) (funext fun entry => ?_)
    by_cases named : entry.requestId = id
    · have kept : entry.requestId ≠ removed := fun same => apart (same.symm.trans named)
      simp [named, apart.symm]
    · simp [named]
  | save saved kind message =>
    rcases carryOut_save s saved kind message with same | ⟨-, appended⟩
    · rw [same]
      exact found
    rw [appended]
    change (s.outbox ++ _).find? _ = some row
    rw [List.find?_append]
    unfold Store.findOutbox at found
    rw [found]
    rfl

theorem findOutbox_run (statements : List Statement)
    (found : s.findOutbox id = some row) (kept : .remove id ∉ statements) :
    (statements.foldl Statement.carryOut s).findOutbox id = some row := by
  induction statements generalizing s with
  | nil => exact found
  | cons statement statements ih =>
    obtain ⟨other, rest⟩ := not_or.mp (fun either => kept (List.mem_cons.mpr either))
    exact ih (findOutbox_carryOut found (Ne.symm other)) rest

theorem findOutbox_saved {kind : String} {message : Bytes}
    (saved : s.saveOutbox id kind message = .ok t) :
    ∃ row, t.findOutbox id = some row ∧ row.kind = kind ∧ row.message = message := by
  unfold Store.saveOutbox at saved
  cases found : s.findOutbox id with
  | none =>
    rw [found] at saved
    obtain rfl := Except.ok.inj saved
    refine ⟨⟨s.nextRowid, id, kind, message⟩, ?_, rfl, rfl⟩
    change (s.outbox ++ _).find? _ = _
    unfold Store.findOutbox at found
    rw [List.find?_append, found]
    simp
  | some row =>
    rw [found] at saved
    dsimp only at saved
    split at saved
    · cases saved
    · rename_i alike
      obtain rfl := Except.ok.inj saved
      obtain ⟨sameKind, sameBytes⟩ := not_or.mp alike
      exact ⟨row, found, not_not.mp sameKind, not_not.mp sameBytes⟩

end Table

section Pages

theorem outboxPage_eq_nil (s : Store mls) (after : Nat) :
    s.outboxPage after = [] ↔ ∀ row ∈ s.outbox, row.rowid ≤ after := by
  have empty : s.outboxPage after = [] ↔ (s.outbox.filter fun row => decide (after < row.rowid)) = [] := by
    unfold Store.outboxPage
    cases s.outbox.filter fun row => decide (after < row.rowid) with
    | nil => simp [Store.takeEntries]
    | cons row rows => simp [Store.takeEntries]
  rw [empty, List.filter_eq_nil_iff]
  refine forall₂_congr fun row _ => ?_
  rw [decide_eq_true_eq, Nat.not_lt]

end Pages

section Completion

variable {e : Engine mls} {id : MessageId}

/-- The outbox after is the one before, or without the entry of `id`. -/
def Dropped (id : MessageId) (s t : Store mls) : Prop :=
  t.outbox = s.outbox ∨ t.outbox = (s.removeOutbox id).outbox

/-- The computation removes the entry of `id` from the outbox, or nothing. -/
def Drops (id : MessageId) (m : Service mls α) : Prop :=
  ∀ s, m.Ends s fun _ t => t.store.outbox = s.store.outbox ∨
    t.store.outbox = (s.store.removeOutbox id).outbox

theorem removeOutbox_congr (same : t.outbox = s.outbox) :
    (t.removeOutbox id).outbox = (s.removeOutbox id).outbox := by
  change t.outbox.filter _ = s.outbox.filter _
  rw [same]

theorem removeOutbox_again (removed : t.outbox = (s.removeOutbox id).outbox) :
    (t.removeOutbox id).outbox = (s.removeOutbox id).outbox := by
  rw [removeOutbox_congr removed]
  change (s.outbox.filter _).filter _ = s.outbox.filter _
  rw [List.filter_filter]
  exact List.filter_congr fun row _ => Bool.and_self _

theorem Dropped.trans {s t u : Store mls} (first : Dropped id s t) (rest : Dropped id t u) :
    Dropped id s u := by
  rcases rest with still | dropped
  · exact first.imp still.trans still.trans
  · rcases first with same | removed
    · exact .inr (dropped.trans (removeOutbox_congr same))
    · exact .inr (dropped.trans (removeOutbox_again removed))

def dropping (id : MessageId) : Manner mls where
  moves s t := Dropped id s.store t.store
  raises _ := True
  stay _ := .inl rfl
  join _ _ _ first rest := first.trans rest
  counts _ _ := .inl rfl
  caches _ _ := .inl rfl
  storage _ := trivial
  library _ := trivial
  encoding := trivial
  decoding := trivial
  texts _ _ := trivial

theorem dropping_stores (s t : Session mls) (same : t.store = s.store) : (dropping id).moves s t :=
  .inl (congrArg Store.outbox same)

theorem dropping_others (s : Session mls) (same : t.outbox = s.store.outbox) :
    (dropping id).moves s { s with store := t } := .inl same

theorem minds_removeOutbox :
    (update fun s => s.removeOutbox id : Service mls Unit).Minds (dropping id).toHabit :=
  minds_update fun _ => .inr rfl

theorem minds_discardAttempt {request : Request} :
    (discardAttempt request : Service mls Unit).Minds (dropping id).toHabit := by
  unfold discardAttempt
  split
  · exact minds_onlyIf (minds_discardPending fun s _ _ => dropping_others s rfl)
  · exact minds_pure ()

theorem outbox_insertCursorOrIgnore (s : Store mls) (room : RoomId) (sequence : Nat) :
    (s.insertCursorOrIgnore room sequence).outbox = s.outbox := by
  unfold Store.insertCursorOrIgnore
  split
  · rfl
  · rfl

theorem minds_completeCreation {name : String} {room : RoomId} :
    (completeCreation e id name room).Minds (dropping id).toHabit := by
  refine minds_atomic dropping_stores
    ((minds_createGroup fun s _ _ => dropping_others s rfl).bind fun _ => ?_)
  refine (minds_execute fun s _ named => dropping_others s (by rw [upsertRoom_rest named])).bind fun _ => ?_
  refine (minds_update fun s => dropping_others s (outbox_insertCursorOrIgnore s.store room 0)).bind
    fun _ => ?_
  exact minds_removeOutbox

theorem minds_completeReservation {recipient : UserId} {package : Bytes} :
    (completeReservation id recipient package : Service mls Unit).Minds (dropping id).toHabit := by
  refine (minds_require trivial).bind fun message => (minds_require trivial).bind fun identity => ?_
  refine minds_call.bind fun _ => minds_get fun s => (minds_mapError fun _ => trivial).bind fun actual => ?_
  split
  · exact minds_fail trivial
  refine minds_transaction dropping_stores (minds_call.bind fun _ s => ends_get ?_)
  have installs : (Local.modify fun t => { t with
      store := (s.store.installPackage id recipient package).2 } : Service mls Unit).Ends s
      fun r t => (dropping id).moves s t ∧ ∀ e, r = .error e → (dropping id : Manner mls).raises e :=
    ends_modify ⟨.inl rfl, fun _ _ => trivial⟩
  refine installs.bind (fun _ t installed => ?_) fun _ _ reached => ⟨reached.1, fun _ _ => trivial⟩
  have onward : (if (s.store.installPackage id recipient package).1 ≠ 1 then
      Local.fail (.text "reservation has no matching durable target")
    else update fun s => s.removeOutbox id : Service mls Unit).Minds (dropping id).toHabit := by
    split
    · exact minds_fail trivial
    · exact minds_removeOutbox
  exact (onward t).mono fun _ _ reached => ⟨installed.1.trans reached.1, reached.2⟩

theorem drops_complete (request : Request) (response : Response) :
    Drops id (complete e id request response) := by
  have differing : (differs : Service mls Unit).Minds (dropping id).toHabit := minds_fail trivial
  have rejecting : (completeRejection id request : Service mls Unit).Minds (dropping id).toHabit :=
    minds_atomic dropping_stores (minds_discardAttempt.bind fun _ =>
      (minds_update fun s => dropping_others s rfl).bind fun _ => minds_removeOutbox)
  have conflicting (operation : Append) :
      (completeConflict id operation : Service mls Unit).Minds (dropping id).toHabit :=
    minds_atomic dropping_stores (minds_discardAttempt.bind fun _ => minds_removeOutbox.bind fun _ =>
      (minds_update fun s => dropping_others s rfl).bind fun _ => minds_update fun s => dropping_others s rfl)
  suffices minds : (complete e id request response).Minds (dropping id).toHabit from
    fun s => (minds s).mono fun _ _ reached => reached.1
  unfold complete
  cases response with
  | rejected reason =>
    cases reason with
    | overloaded | quota | internal => exact minds_pure ()
    | _ => exact rejecting
  | roomCreated room =>
    dsimp only
    split
    · exact minds_completeCreation
    · exact differing
  | keyPackagesPublished count =>
    dsimp only
    split
    · split
      · exact minds_removeOutbox
      · exact differing
    · exact differing
  | fetchGrantSet | acknowledged =>
    dsimp only
    split
    · exact minds_removeOutbox
    · exact differing
  | keyPackage actual package =>
    dsimp only
    split
    · split
      · exact minds_completeReservation
      · exact differing
    · exact differing
  | appendAccepted event =>
    dsimp only
    split
    · split
      · exact minds_receive fun s _ _ inserted => dropping_others s (by rw [insertInbox_rest inserted])
      · exact differing
    · exact differing
  | headConflict room head =>
    dsimp only
    split
    · split
      · exact conflicting _
      · exact differing
    · exact differing
  | roomEvents _ _ _ _ | syncIndex _ _ | welcomes _ _ _ => exact differing

end Completion

variable {after enough : Nat}

section Pass

variable {entries : List OutboxRow}

def readEntry (row : OutboxRow) : Option (MessageId × Request) :=
  match decodeMessage ClientMessage row.message with
  | .ok (.delivery id request) => if id = row.requestId then some (id, request) else none
  | _ => none

theorem readEntry_some {row : OutboxRow} {query : MessageId × Request} (read : readEntry row = some query) :
    query.1 = row.requestId ∧
      decodeMessage ClientMessage row.message = .ok (.delivery query.1 query.2) := by
  unfold readEntry at read
  split at read
  · rename_i id request decodes
    split at read
    · rename_i same
      obtain rfl := Option.some.inj read
      exact ⟨same, decodes⟩
    · cases read
  · cases read

theorem readEntry_unchanged {row : OutboxRow} {query : MessageId × Request} {message : ClientMessage}
    (written : encodeMessage message = .ok row.message) (read : readEntry row = some query) :
    encodeMessage (ClientMessage.delivery query.1 query.2) = .ok row.message := by
  rw [eq_of_decodeMessage written (readEntry_some read).2]
  exact written

abbrev Exchange := (MessageId × Request) × Option Response

variable (w : Meeting mls) (e : Engine mls)

/-- Why a pass stops before its end: a page that is not read, an entry that is no request of its own
name, a lost answer, or an answer that is not completed. -/
inductive Interrupts (rows : List OutboxRow) (sent : List Exchange) (d : Standing mls) : Error → Prop
  | page {error : Error} (after n : Nat) (s : Session mls)
      (failed : (query fun s => s.outboxPage after) (w.surroundings n) s = (.error error, d.state)) :
      Interrupts rows sent d error
  | entry {error : Error} (row : OutboxRow) (next : rows[sent.length]? = some row)
      (unreadable : readEntry row = none) : Interrupts rows sent d error
  | lost (before : List Exchange) (query : MessageId × Request) (last : sent = before ++ [(query, none)]) :
      Interrupts rows sent d .disconnected
  | completion {error : Error} (before : List Exchange) (query : MessageId × Request)
      (response : Response) (last : sent = before ++ [(query, some response)]) (n : Nat) (s : Session mls)
      (failed : complete e query.1 query.2 response (w.surroundings n) s = (.error error, d.state)) :
      Interrupts rows sent d error

/-- A pass over `rows`: what it exchanged follows them in order, up to their end or to where it was
interrupted. -/
structure Sends (rows : List OutboxRow) (c : Standing mls) (r : Except Error Unit) (sent : List Exchange)
    (d : Standing mls) : Prop where
  exchanged : d.past = c.past ++ sent
  inOrder : (sent.map fun exchange => some exchange.1) <+: rows.map readEntry
  outcome : r = .ok () ∧ sent.length = rows.length ∨
    ∃ error, r = .error error ∧ Interrupts w e rows sent d error

variable {w e} {rows later : List OutboxRow} {row : OutboxRow} {c d : Standing mls}

theorem Interrupts.cons {sent : List Exchange} {first : Exchange} {error : Error}
    (interrupts : Interrupts w e rows sent d error) :
    Interrupts w e (row :: rows) (first :: sent) d error := by
  cases interrupts with
  | page after n s failed => exact .page after n s failed
  | entry other next unreadable =>
    refine .entry other ?_ unreadable
    rw [List.length_cons, List.getElem?_cons_succ]
    exact next
  | lost before query last => exact .lost (first :: before) query (congrArg (first :: ·) last)
  | completion before query response last n s failed =>
    exact .completion (first :: before) query response (congrArg (first :: ·) last) n s failed

theorem Sends.cons {sent : List Exchange} {query : MessageId × Request} {answer : Option Response}
    {b : Standing mls} {r : Except Error Unit} (read : readEntry row = some query)
    (past : c.past = b.past ++ [(query, answer)]) (sends : Sends w e rows c r sent d) :
    Sends w e (row :: rows) b r ((query, answer) :: sent) d where
  exchanged := by
    rw [sends.exchanged, past, List.append_assoc]
    rfl
  inOrder := by
    rw [List.map_cons, List.map_cons, read]
    exact (List.prefix_cons_inj _).mpr sends.inOrder
  outcome := by
    rcases sends.outcome with ⟨fine, whole⟩ | ⟨error, failed, interrupts⟩
    · exact .inl ⟨fine, congrArg Nat.succ whole⟩
    · exact .inr ⟨error, failed, interrupts.cons⟩

structure Waits (s : Session mls) (after : Nat) (rows : List OutboxRow) : Prop where
  tabled : Tabled s.store.outbox
  above : (s.store.outbox.filter fun row => decide (after < row.rowid)) = rows

theorem filter_above {rows : List OutboxRow}
    (ascending : rows.Pairwise fun a b => a.rowid < b.rowid)
    (above : (rows.filter fun row => decide (after < row.rowid)) = row :: later) :
    (rows.filter fun other => decide (row.rowid < other.rowid)) = later := by
  have ordered := ascending.sublist
    (List.filter_sublist (l := rows) (p := fun row => decide (after < row.rowid)))
  rw [above] at ordered
  have listed : row ∈ rows.filter fun row => decide (after < row.rowid) := by
    rw [above]
    exact List.mem_cons_self
  have beyond : after < row.rowid := of_decide_eq_true (List.mem_filter.mp listed).2
  have twice : (rows.filter fun other => decide (row.rowid < other.rowid)) =
      (rows.filter fun other => decide (after < other.rowid)).filter
        fun other => decide (row.rowid < other.rowid) := by
    rw [List.filter_filter]
    refine List.filter_congr fun other _ => ?_
    rw [← Bool.decide_and]
    exact decide_eq_decide.mpr ⟨fun further => ⟨further, beyond.trans further⟩, And.left⟩
  rw [twice, above, List.filter_cons_of_neg (by simp)]
  exact List.filter_eq_self.mpr fun other later => decide_eq_true (List.rel_of_pairwise_cons ordered later)

theorem Waits.head_mem {s : Session mls} (waits : Waits s after (row :: later)) :
    row ∈ s.store.outbox := by
  have listed : row ∈ s.store.outbox.filter fun row => decide (after < row.rowid) := by
    rw [waits.above]
    exact List.mem_cons_self
  exact (List.mem_filter.mp listed).1

theorem Waits.complete {s t : Session mls} {id : MessageId} (waits : Waits s after (row :: later))
    (named : id = row.requestId)
    (dropped : t.store.outbox = s.store.outbox ∨ t.store.outbox = (s.store.removeOutbox id).outbox) :
    Waits t row.rowid later := by
  subst named
  have rest := filter_above waits.tabled.ascending waits.above
  rcases dropped with same | removed
  · exact ⟨same ▸ waits.tabled, by rw [same]; exact rest⟩
  refine ⟨?_, ?_⟩
  · rw [removed]
    exact waits.tabled.sublist List.filter_sublist
  rw [removed]
  change (s.store.outbox.filter _).filter _ = later
  rw [List.filter_filter, ← rest]
  -- Another row of the same request would be the row itself.
  refine List.filter_congr fun other listed => ?_
  by_cases further : row.rowid < other.rowid
  · have apart : other.requestId ≠ row.requestId := by
      intro same
      have equal := List.inj_on_of_nodup_map waits.tabled.requests listed waits.head_mem same
      exact absurd further (equal ▸ Nat.lt_irrefl _)
    simp [further, apart]
  · simp [further]

/-- The run of a pass ends the same way with any fuel beyond the number of its entries. -/
def Passes (w : Meeting mls) (e : Engine mls) (p : Nat → Program mls Unit) (rows : List OutboxRow)
    (enough : Nat) (c : Standing mls) : Prop :=
  ∃ r d sent, (∀ fuel, enough < fuel → run w (p fuel) c = (r, d)) ∧ Sends w e rows c r sent d

theorem passes_interrupted {p : Nat → Program mls Unit} {error : Error}
    (result : ∀ fuel, enough < fuel → run w (p fuel) c = (.error error, d))
    (past : d.past = c.past) (interrupts : Interrupts w e rows [] d error) :
    Passes w e p rows enough c :=
  ⟨.error error, d, [], result, by rw [past, List.append_nil], List.nil_prefix,
    .inr ⟨error, rfl, interrupts⟩⟩

theorem sendEntries_unread (entries : List OutboxRow) (after : Nat) (unread : readEntry row = none) :
    ∃ error, sendEntries e after (row :: entries) = Prog.fail error := by
  unfold readEntry at unread
  unfold sendEntries
  split
  · exact ⟨.decode, rfl⟩
  · rename_i id request decodes
    rw [decodes] at unread
    split
    · exact ⟨_, rfl⟩
    · rename_i same
      rw [not_not.mp same] at unread
      simp at unread
  · exact ⟨_, rfl⟩

theorem sendEntries_read {query : MessageId × Request}
    (read : readEntry row = some query) : sendEntries e after (row :: entries) = (do
      let response ← wireRequest query.1 query.2
      Prog.perform (complete e query.1 query.2 response)
      sendEntries e row.rowid entries) := by
  obtain ⟨named, decodes⟩ := readEntry_some read
  conv_lhs => unfold sendEntries
  rw [decodes]
  exact if_neg (not_not.mpr named)

theorem encodes_of_readEntry {query : MessageId × Request} (read : readEntry row = some query) :
    ∃ message, encodeMessage (ClientMessage.delivery query.1 query.2) = .ok message := by
  obtain ⟨-, shorter, bounded⟩ := decodeMessage_sound (readEntry_some read).2
  exact ⟨_, encodeMessage_of_le (shorter.trans bounded)⟩

theorem passes_entry (waits : Waits c.state after (row :: rows))
    (onward : ∀ d : Standing mls, Waits d.state row.rowid rows →
      Passes w e (fun fuel => sendEntries e row.rowid entries >>= sendOutbox e fuel) rows enough d) :
    Passes w e (fun fuel => sendEntries e after (row :: entries) >>= sendOutbox e fuel) (row :: rows)
      enough c := by
  cases read : readEntry row with
  | none =>
    obtain ⟨error, unread⟩ := sendEntries_unread (e := e) entries after read
    have stops : Interrupts w e (row :: rows) [] c error := .entry row rfl read
    refine passes_interrupted (fun fuel _ => ?_) rfl stops
    rw [unread]
    rfl
  | some query =>
    obtain ⟨message, encodes⟩ := encodes_of_readEntry read
    have asked := run_wireRequest (w := w) (c := c) encodes
    rw [sendEntries_read read]
    cases answer : w.answer c.past query with
    | none =>
      rw [answer] at asked
      refine ⟨.error .disconnected, told w c query, [(query, none)], fun fuel _ => ?_, ?_, ?_, ?_⟩
      · exact run_bind_of_error (run_bind_of_error asked)
      · unfold told
        rw [answer]
      · rw [List.map_cons, List.map_cons, read]
        exact (List.prefix_cons_inj _).mpr List.nil_prefix
      · exact .inr ⟨.disconnected, rfl, .lost [] query rfl⟩
    | some response =>
      rw [answer] at asked
      let next := complete e query.1 query.2 response (w.surroundings c.actions) c.state
      let b : Standing mls := { told w c query with state := next.2, actions := c.actions + 1 }
      have past : b.past = c.past ++ [(query, some response)] := by
        rw [← answer]
        rfl
      have performed : run w (Prog.perform (complete e query.1 query.2 response)) (told w c query) =
          (next.1, b) := rfl
      cases done : next.1 with
      | error error =>
        rw [done] at performed
        refine ⟨.error error, b, [(query, some response)], fun fuel _ => ?_, past, ?_, ?_⟩
        · refine run_bind_of_error ((run_bind_of_ok asked).trans ?_)
          exact run_bind_of_error performed
        · rw [List.map_cons, List.map_cons, read]
          exact (List.prefix_cons_inj _).mpr List.nil_prefix
        · exact .inr ⟨error, rfl, .completion [] query response rfl c.actions c.state
            (Prod.ext done rfl)⟩
      | ok _ =>
        rw [done] at performed
        have drops : Drops query.1 (complete e query.1 query.2 response) := drops_complete _ _
        have dropped := drops c.state (w.surroundings c.actions)
        obtain ⟨r, d, sent, result, sends⟩ :=
          onward b (waits.complete (readEntry_some read).1 dropped)
        refine ⟨r, d, (query, some response) :: sent, fun fuel plenty => ?_,
          sends.cons read past⟩
        rw [← result fuel plenty]
        dsimp only
        rw [Base.Progress.bind_assoc, run_bind_of_ok asked, Base.Progress.bind_assoc]
        exact run_bind_of_ok performed

theorem passes_page
    (onward : ∀ after (c : Standing mls), Waits c.state after later →
      Passes w e (fun fuel => sendOutbox e fuel after) later enough c) (page : List OutboxRow)
    (after : Nat) (c : Standing mls) (waits : Waits c.state after (page ++ later)) :
    Passes w e (fun fuel => sendEntries e after page >>= sendOutbox e fuel) (page ++ later) enough c := by
  induction page generalizing after c with
  | nil => exact onward after c waits
  | cons row page ih => exact passes_entry waits fun d rest => ih row.rowid d rest

/-- The induction is on the entries above `after`: every page that is not empty takes some of them. -/
theorem passes_outbox (rows : List OutboxRow) (after : Nat) (c : Standing mls)
    (waits : Waits c.state after rows) :
    Passes w e (fun fuel => sendOutbox e fuel after) rows rows.length c := by
  induction size : rows.length using Nat.strong_induction_on generalizing rows after c with
  | h n ih =>
    subst size
    let read := (query fun s => s.outboxPage after : Service mls _) (w.surroundings c.actions) c.state
    let b : Standing mls := { c with state := read.2, actions := c.actions + 1 }
    have performed : run w (Prog.perform (query fun s => s.outboxPage after)) c = (read.1, b) := rfl
    obtain ⟨keeps, value⟩ := (ends_query : (query fun s => s.outboxPage after : Service mls _).Ends
      c.state _) (w.surroundings c.actions)
    cases got : read.1 with
    | error error =>
      rw [got] at performed
      refine passes_interrupted (d := b) (fun fuel plenty => ?_) rfl
        (.page after c.actions c.state (Prod.ext got rfl))
      obtain ⟨less, rfl⟩ := Nat.exists_eq_add_of_lt plenty
      exact run_bind_of_error performed
    | ok page =>
      rw [got] at performed
      have taken : page = c.state.store.outboxPage after := value page got
      have unfolds : ∀ fuel, run w (sendOutbox e (fuel + 1) after) c =
          run w (if page.isEmpty then pure () else sendEntries e after page >>= sendOutbox e fuel) b :=
        fun fuel => run_bind_of_ok performed
      obtain ⟨later, split⟩ := outboxPage_front c.state.store after
      rw [← taken, waits.above] at split
      cases page with
      | nil =>
        have none_above := (outboxPage_eq_nil c.state.store after).mp taken.symm
        have nothing : rows = [] := by
          rw [← waits.above, List.filter_eq_nil_iff]
          exact fun row listed above => absurd (of_decide_eq_true above)
            (Nat.not_lt.mpr (none_above row listed))
        subst nothing
        refine ⟨.ok (), b, [], fun fuel plenty => ?_, (List.append_nil _).symm, List.nil_prefix,
          .inl ⟨rfl, rfl⟩⟩
        obtain ⟨less, rfl⟩ := Nat.exists_eq_add_of_lt plenty
        exact unfolds _
      | cons row page =>
        have fewer : later.length < rows.length := by
          rw [← split, List.length_append, List.length_cons]
          omega
        have waiting : Waits b.state after (row :: page ++ later) := by
          rw [split]
          have same : b.state.store = c.state.store := keeps.store
          exact ⟨same ▸ waits.tabled, same ▸ waits.above⟩
        obtain ⟨r, d, sent, result, sends⟩ := passes_page
          (fun after d waits => ih later.length fewer later after d waits rfl) (row :: page) after b
          waiting
        rw [split] at sends
        refine ⟨r, d, sent, fun fuel plenty => ?_, sends.exchanged, sends.inOrder, sends.outcome⟩
        obtain ⟨less, rfl⟩ := Nat.exists_eq_add_of_lt plenty
        rw [← result (rows.length + less) (by omega)]
        exact unfolds _

/-- Over any table of entries and any answers a pass ends. It has sent the entries it found, once each
and in their order, if it was not interrupted, and a front part of them otherwise; they go out with the
bytes they were saved with, which stay as they are until the entry is removed. -/
theorem pass_sends_outbox (w : Meeting mls) (e : Engine mls) (c : Standing mls)
    (tabled : Tabled c.state.store.outbox) :
    Passes w e (fun fuel => sendOutbox e fuel 0) c.state.store.outbox c.state.store.outbox.length c ∧
    (∀ (row : OutboxRow) (query : MessageId × Request) (message : ClientMessage),
      encodeMessage message = .ok row.message → readEntry row = some query →
        query.1 = row.requestId ∧
          encodeMessage (ClientMessage.delivery query.1 query.2) = .ok row.message) ∧
    (∀ (s : Store mls) after, s.outboxPage after = [] ↔ ∀ row ∈ s.outbox, row.rowid ≤ after) ∧
    ∀ (s : Store mls) (statements : List Statement),
      (Tabled s.outbox → Tabled (statements.foldl Statement.carryOut s).outbox) ∧
      ((statements.foldl Statement.carryOut s).outbox.map OutboxRow.requestId).Sublist
        (s.outbox.map OutboxRow.requestId ++ statements.filterMap Statement.saved) ∧
      ∀ (before : Store mls) id kind message, before.saveOutbox id kind message = .ok s →
        .remove id ∉ statements →
        ∃ row, (statements.foldl Statement.carryOut s).findOutbox id = some row ∧
          row.kind = kind ∧ row.message = message := by
  refine ⟨?_, ?_, outboxPage_eq_nil, fun s statements => ⟨tabled_run statements,
    saved_in_order s statements, fun before id kind message saved kept => ?_⟩⟩
  · refine passes_outbox _ 0 c ⟨tabled, ?_⟩
    exact List.filter_eq_self.mpr fun row listed => decide_eq_true (tabled.positive row listed)
  · exact fun row query message written read =>
      ⟨(readEntry_some read).1, readEntry_unchanged written read⟩
  · obtain ⟨row, found, alike⟩ := findOutbox_saved saved
    exact ⟨row, findOutbox_run statements found kept, alike⟩

def twoGrants : Store Cleartext.mls :=
  [1, 2].foldl (fun s n => Statement.carryOut s (.save (sampleId n) "Delivery"
    ((serde ClientMessage).encode (.delivery (sampleId n) (.setFetchGrant (sampleUser n) true)))))
    (Store.empty _)

/-- A relay that puts the first request off and carries out the others. -/
def busyOnce : Meeting Cleartext.mls where
  surroundings _ := calm
  drawn _ := none
  answer past _ := if past.isEmpty then some (.rejected .overloaded) else some .fetchGrantSet

theorem pass_sends_outbox_grants :
    Passes busyOnce (clearEngine (sampleUser 9)) (fun fuel => sendOutbox (clearEngine (sampleUser 9)) fuel 0)
      twoGrants.outbox twoGrants.outbox.length ⟨opened twoGrants, 0, 0, []⟩ ∧
    (run busyOnce (sendOutbox (clearEngine (sampleUser 9)) 3 0)
      ⟨opened twoGrants, 0, 0, []⟩).2.state.store.outbox.length = 1 := by
  have tabled : Tabled (opened twoGrants).store.outbox := ⟨by decide, by decide, by decide⟩
  exact ⟨(pass_sends_outbox busyOnce (clearEngine (sampleUser 9)) ⟨opened twoGrants, 0, 0, []⟩ tabled).1,
    by decide +kernel⟩

end Pass

end Grotto.Client.OutboxPass
