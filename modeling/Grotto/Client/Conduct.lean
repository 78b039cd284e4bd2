/- GID: Grotto/Client/Conduct
   digest: Commands and drives make one durable change at a time and send what is in the outbox. -/

import Grotto.Client.Building
import Grotto.Client.Consistency

set_option autoImplicit false

namespace Grotto.Client.Conduct

open Format.Varint (Bytes)
open Protocol.Records
open Base.Program Base.Program.Prog
open Library Tables
open Calls Groups Effects Habits Operations
open Delivery Changes Actions Building Frames
open Consistency

variable {mls : Mls} (e : Engine mls) (asked : UserCommand → Prop)
variable (uses : Store mls → MessageId → Prop)

theorem Commits.learn {e : Engine mls} {asked : UserCommand → Prop}
    {known more : MessageId × Request → Response → Prop}
    {fresh : MessageId → Prop} {s t : Store mls} (extra : known ≤ more)
    (commits : Commits e asked known fresh s t) : Commits e asked more fresh s t := by
  cases commits with
  | contact vouched new => exact .contact vouched new
  | command issued orders new journals => exact .command issued orders new journals
  | intent new group inserted => exact .intent new group inserted
  | name named => exact .name named
  | complete entry answer completes => exact .complete entry (extra _ _ answer) completes
  | receive group answer listed place above next stores =>
    exact .receive group (extra _ _ answer) listed place above next stores
  | attempt planned idle new group clear builds journals =>
    exact .attempt planned idle new group clear builds journals
  | welcomes start answer listed => exact .welcomes start (extra _ _ answer) listed
  | suspend pending unsettled => exact .suspend pending unsettled
  | join pending unsettled joins => exact .join pending unsettled joins
  | settle ready settles => exact .settle ready settles

/-- An action makes at most one durable change; a request is an entry of the outbox or a read. -/
def discipline : Discipline (Session mls) MessageId (MessageId × Request) Response where
  uses s := uses s.store
  may known fresh s t := t.store = s.store ∨ Commits e asked known fresh s.store t.store
  sends s query := Entry s.store query.1 query.2 ∨ query.2.isRead = true
  may_mono _ _ _ _ _ extra := Or.imp_right (Commits.learn extra)

/-- A session between actions; `fresh` are the identifiers drawn and not yet in its tables. -/
structure Safe (fresh : MessageId → Prop) (s : Session mls) : Prop where
  coherent : Coherent s
  sound : Sound e.user s.store
  unused : ∀ id, fresh id → ¬uses s.store id

variable {e asked uses} {known : MessageId × Request → Response → Prop} {fresh : MessageId → Prop}
variable {s : Session mls} {α : Type}

theorem Safe.keep {t : Session mls} (safe : Safe e uses fresh s) (same : t.store = s.store)
    (coherent : Coherent t) : Safe e uses fresh t where
  coherent := coherent
  sound := by rw [same]; exact safe.sound
  unused := by rw [same]; exact safe.unused

variable {m : Service mls α}

theorem follows_reading (good : Except Error α → Prop) (safe : Safe e uses fresh s)
    (ends : m.Ends s fun r t => t.store = s.store ∧ Coherent t ∧ good r) :
    (perform m : Program mls α).Follows (discipline e asked uses)
      (fun _ wide t r => wide = fresh ∧ t.store = s.store ∧ Safe e uses fresh t ∧ good r)
      known fresh s := by
  refine follows_perform (ends.mono fun r t reached => ?_)
  obtain ⟨same, coherent, fine⟩ := reached
  refine ⟨.inl same, ?_, same, safe.keep same coherent, fine⟩
  funext id
  exact propext ⟨fun both => both.1, fun drawn => ⟨drawn, (safe.keep same coherent).unused id drawn⟩⟩

theorem follows_look {β : Type} {m : Service mls β} {f : β → Program mls α}
    {post : (MessageId × Request → Response → Prop) → (MessageId → Prop) → Session mls →
      Except Error α → Prop} (good : β → Prop) (safe : Safe e uses fresh s)
    (minds : m.Minds sparing.toHabit)
    (ends : m.Ends s fun r t => t.store = s.store ∧ Coherent t ∧ ∀ a, r = .ok a → good a)
    (rest : ∀ a t, good a → t.store = s.store → Safe e uses fresh t → ∀ more, known ≤ more →
      (f a).Follows (discipline e asked uses) post more fresh t)
    (failed : ∀ error more t, error ≠ unresolvedCommit → t.store = s.store → Safe e uses fresh t →
      post more fresh t (.error error)) :
    (perform m >>= f).Follows (discipline e asked uses) post known fresh s := by
  have both := (ends.and (spared_of_minds minds)).mono fun r t reached =>
    (⟨reached.1.1, reached.1.2.1, reached.1.2.2, reached.2⟩ : t.store = s.store ∧ Coherent t ∧
      (∀ a, r = .ok a → good a) ∧ r ≠ .error unresolvedCommit)
  refine Follows.bind (follows_reading _ safe both) (fun a more wide t extra reached => ?_)
    fun error more wide t _ reached => ?_
  · obtain ⟨rfl, store, safe, value, -⟩ := reached
    exact rest a t (value a rfl) store safe more extra
  · obtain ⟨rfl, store, safe, -, other⟩ := reached
    exact failed error more t (fun same => other (congrArg _ same)) store safe

theorem follows_query {β : Type} {look : Store mls → β} {f : β → Program mls α}
    {post : (MessageId × Request → Response → Prop) → (MessageId → Prop) → Session mls →
      Except Error α → Prop} (safe : Safe e uses fresh s)
    (rest : ∀ t, t.store = s.store → Safe e uses fresh t →
      ∀ more, known ≤ more → (f (look s.store)).Follows (discipline e asked uses) post more fresh t)
    (failed : ∀ error more t, error ≠ unresolvedCommit → t.store = s.store → Safe e uses fresh t →
      post more fresh t (.error error)) :
    (perform (query look) >>= f).Follows (discipline e asked uses) post known fresh s :=
  follows_look (fun a => a = look s.store) safe minds_query
    (ends_query.mono fun _ _ reached =>
      ⟨reached.1.store, reached.1.coherent safe.coherent, reached.2⟩)
    (fun _ t value store safe more extra => value ▸ rest t store safe more extra) failed

theorem follows_hasGroup {room : RoomId} {f : Bool → Program mls α}
    {post : (MessageId × Request → Response → Prop) → (MessageId → Prop) → Session mls →
      Except Error α → Prop} (safe : Safe e uses fresh s)
    (rest : ∀ present t, (present = true → (s.store.mlsGroups room).isSome) → t.store = s.store →
      Safe e uses fresh t → ∀ more, known ≤ more →
      (f present).Follows (discipline e asked uses) post more fresh t)
    (failed : ∀ error more t, error ≠ unresolvedCommit → t.store = s.store → Safe e uses fresh t →
      post more fresh t (.error error)) :
    (perform (hasGroup room) >>= f).Follows (discipline e asked uses) post known fresh s := by
  refine follows_look _ safe minds_hasGroup ((ends_hasGroup safe.coherent).mono fun r t reached =>
    ⟨reached.1, reached.2.1, ?_⟩) rest failed
  rintro a rfl rfl
  obtain ⟨group, held⟩ := reached.2.2 rfl
  rw [held]
  rfl

theorem follows_writing (good : Except Error α → Store mls → Prop) (safe : Safe e uses fresh s)
    (ends : m.Ends s fun r t => Coherent t ∧
      (t.store = s.store ∨ Commits e asked known fresh s.store t.store) ∧ good r t.store) :
    (perform m : Program mls α).Follows (discipline e asked uses)
      (fun _ wide t r => Safe e uses wide t ∧ good r t.store) known fresh s := by
  refine follows_perform (ends.mono fun r t reached => ?_)
  obtain ⟨coherent, changed, fine⟩ := reached
  refine ⟨changed, ⟨coherent, ?_, fun _ both => both.2⟩, fine⟩
  rcases changed with same | commits
  · rw [same]
    exact safe.sound
  · exact safe.sound.commits commits

theorem follows_draw {f : MessageId → Program mls α} {error : Error}
    {post : (MessageId × Request → Response → Prop) → (MessageId → Prop) → Session mls →
      Except Error α → Prop} (safe : Safe e uses fresh s)
    (drawn : ∀ id wide, wide id → Safe e uses wide s →
      (f id).Follows (discipline e asked uses) post known wide s)
    (exhausted : post known fresh s (.error error)) :
    (Prog.fresh error >>= f).Follows (discipline e asked uses) post known fresh s := by
  refine follows_fresh (fun id unused => drawn id _ (.inr rfl) ⟨safe.coherent, safe.sound, ?_⟩)
    exhausted
  rintro other (old | rfl)
  · exact safe.unused other old
  · exact unused

/-- What every program of the engine leaves: a safe session, however it ends. -/
abbrev Leaves (e : Engine mls) (asked : UserCommand → Prop) (uses : Store mls → MessageId → Prop)
    (p : Program mls α)
    (known : MessageId × Request → Response → Prop) (fresh : MessageId → Prop) (s : Session mls) :
    Prop :=
  p.Follows (discipline e asked uses) (fun _ wide t _ => Safe e uses wide t) known fresh s

section Commands

theorem leaves_reading (safe : Safe e uses fresh s) (ends : m.Ends s fun _ t => Keeps s t) :
    Leaves e asked uses (perform m) known fresh s := by
  have reading : (perform m : Program mls α).Follows (discipline e asked uses)
      (fun _ wide t r => wide = fresh ∧ t.store = s.store ∧ Safe e uses fresh t ∧ True) known fresh s :=
    follows_reading (fun _ => True) safe (ends.mono fun r t keeps =>
      ⟨keeps.store, keeps.coherent safe.coherent, trivial⟩)
  refine reading.mono fun _ wide t r reached => ?_
  obtain ⟨rfl, -, safe, -⟩ := reached
  exact safe

theorem leaves_writing (safe : Safe e uses fresh s)
    (ends : m.Ends s fun _ t => Coherent t ∧
      (t.store = s.store ∨ Commits e asked known fresh s.store t.store)) :
    Leaves e asked uses (perform m) known fresh s := by
  have writing : (perform m : Program mls α).Follows (discipline e asked uses)
      (fun _ wide t r => Safe e uses wide t ∧ True) known fresh s :=
    follows_writing (fun _ _ => True) safe
      (ends.mono fun r t reached => ⟨reached.1, reached.2, trivial⟩)
  exact writing.mono fun _ wide t r reached => reached.1

theorem leaves_intent {room : RoomId} {target : Option UserId} {plaintext : Option Bytes}
    (safe : Safe e uses fresh s) : Leaves e asked uses (intent room target plaintext) known fresh s := by
  refine follows_look (fun present => present = true → (s.store.mlsGroups room).isSome) safe
    (minds_admitNewData.bind fun _ => minds_hasGroup) ?_ (fun present t held store safe _ _ => ?_)
    fun _ _ _ _ _ safe => safe
  · refine Local.Ends.bind ends_admitNewData (fun _ t keeps => ?_) fun _ t keeps =>
      ⟨keeps.store, keeps.coherent safe.coherent, fun _ same => by cases same⟩
    refine (ends_hasGroup (keeps.coherent safe.coherent)).mono fun r u looked => ?_
    refine ⟨looked.1.trans keeps.store, looked.2.1, ?_⟩
    rintro a rfl rfl
    obtain ⟨group, held⟩ := looked.2.2 rfl
    rw [← keeps.store, held]
    rfl
  split
  · exact follows_fail safe
  rename_i there
  have group : (t.store.mlsGroups room).isSome := by
    rw [store]
    exact held (by simpa using there)
  refine follows_draw safe (fun id wide new safe => ?_) safe
  refine leaves_writing safe (ends_execute.mono fun r u inserted => ?_)
  cases r with
  | ok _ =>
    exact ⟨coherent_of_groups safe.coherent inserted.1 (insertIntent_groups inserted.2),
      .inr (.intent new group inserted.2)⟩
  | error _ =>
    exact ⟨coherent_of_groups safe.coherent inserted.1 (by rw [inserted.2]), .inl inserted.2⟩

theorem leaves_durable {order : UserCommand} {request : Request} (issued : asked order)
    (orders : Orders order request) (safe : Safe e uses fresh s) :
    Leaves e asked uses (durable request) known fresh s := by
  refine follows_draw safe (fun id wide new safe => ?_) safe
  refine leaves_writing safe (ends_journal.mono fun r t journaled => ?_)
  cases r with
  | ok _ =>
    have journals : Journals s.store id request t.store := journaled.2
    have kept : Journals { s.store with mlsPackages := s.store.mlsPackages } id request t.store :=
      journals
    exact ⟨coherent_of_groups safe.coherent journaled.1 (journals_groups journals),
      .inr (.command issued orders new kept)⟩
  | error _ =>
    have same : t.store = s.store := journaled.2
    exact ⟨coherent_of_groups safe.coherent journaled.1 (by rw [same]), .inl same⟩

theorem leaves_publish {count : Nat} (issued : asked (.publishKeyPackages count))
    (safe : Safe e uses fresh s) :
    Leaves e asked uses (command e (.publishKeyPackages count)) known fresh s := by
  refine follows_draw safe (fun id wide new safe => ?_) safe
  refine leaves_writing safe ?_
  have published : (atomic do
      let packages ← generateKeyPackages e.client count
      journal id (.publishKeyPackages packages) : Service mls Unit).Ends s fun r t => Coherent t ∧
        Outcome s.store (fun _ store => ∃ kept packages,
          Journals { s.store with mlsPackages := kept } id (.publishKeyPackages packages) store)
          r t.store := by
    refine ends_atomic _ safe.coherent fun t keeps => ?_
    refine Local.Yields.bind (yields_generateKeyPackages count) fun packages u made => ?_
    obtain ⟨groups, kept, store⟩ := made
    refine yields_journal.mono fun _ v journaled => ?_
    have journals := journaled.2
    rw [store, keeps.store] at journals
    refine ⟨?_, kept, packages, journals⟩
    refine coherent_of_groups (keeps.coherent safe.coherent) (journaled.1.trans groups) ?_
    rw [journals_groups journals, keeps.store]
  refine published.mono fun r t reached => ⟨reached.1, ?_⟩
  cases r with
  | ok _ =>
    obtain ⟨kept, packages, journals⟩ := reached.2
    exact .inr (.command issued (.publish count packages) new journals)
  | error _ => exact .inl reached.2

theorem leaves_import {text fingerprint : List Char}
    (issued : asked (.contactImport text fingerprint)) (safe : Safe e uses fresh s) :
    Leaves e asked uses (command e (.contactImport text fingerprint)) known fresh s := by
  refine leaves_writing safe ?_
  refine Local.ends_ofExcept_then (fun card parsed => ?_) fun _ _ => ⟨safe.coherent, .inl rfl⟩
  refine ends_importCard.mono fun _ t imported => ?_
  rcases imported.2.1 with same | ⟨matching, valid, new, store⟩
  · exact ⟨coherent_of_groups safe.coherent imported.1 (by rw [same]), .inl same⟩
  refine ⟨coherent_of_groups safe.coherent imported.1 ?_, .inr ?_⟩
  · rw [store]
    unfold Store.insertContact
    rw [new]
    rfl
  · rw [store]
    exact .contact (.given issued (mapError_ok parsed) matching valid) new

theorem leaves_afterContact {user : UserId} {p : Program mls Unit}
    (rest : ∀ more t, Safe e uses fresh t → Leaves e asked uses p more fresh t)
    (safe : Safe e uses fresh s) :
    Leaves e asked uses (perform (requireContact e user) >>= fun _ => p) known fresh s := by
  refine follows_look (fun _ => True) safe minds_requireContact ?_
    (fun _ t _ _ safe more _ => rest more t safe) fun _ _ _ _ _ safe => safe
  exact ends_requireContact.mono fun _ t reached =>
    ⟨reached.1.store, reached.1.coherent safe.coherent, fun _ _ => trivial⟩

theorem leaves_command (order : UserCommand) (issued : asked order) (safe : Safe e uses fresh s) :
    Leaves e asked uses (command e order) known fresh s := by
  cases order with
  | setFetchGrant requester allowed =>
    exact leaves_afterContact (fun _ _ => leaves_durable issued (.grant requester allowed)) safe
  | contactExport =>
    refine leaves_reading safe (Local.Ends.bind ends_identity (fun _ t keeps => ?_)
      fun _ t keeps => keeps)
    exact ends_call.mono fun _ u called => keeps.trans called
  | contactImport card fingerprint => exact leaves_import issued safe
  | listContacts => exact leaves_reading safe ends_call
  | createRoom name => exact leaves_durable issued (.createRoom name) safe
  | publishKeyPackages count => exact leaves_publish issued safe
  | addToRoom room user => exact leaves_afterContact (fun _ _ => leaves_intent) safe
  | listRooms => exact leaves_reading safe ends_call
  | sendRoomMessage room body =>
    change Leaves e asked uses (intent room none (some body)) known fresh s
    exact leaves_intent safe
  | fetchRoomHistory room before =>
    exact leaves_reading safe (Local.Ends.bind ends_history (fun _ _ keeps => Local.ends_pure keeps)
      fun _ _ keeps => keeps)
  | syncWelcomes => exact follows_pure safe

end Commands

section Sending

variable {post : (MessageId × Request → Response → Prop) → (MessageId → Prop) → Session mls →
  Except Error α → Prop}

theorem follows_wire {id : MessageId} {request : Request} {f : Response → Program mls α}
    (sent : Entry s.store id request ∨ request.isRead = true)
    (answered : ∀ response more, known ≤ more → more (id, request) response →
      (f response).Follows (discipline e asked uses) post more fresh s)
    (failed : ∀ error more, known ≤ more → post more fresh s (.error error)) :
    (wireRequest id request >>= f).Follows (discipline e asked uses) post known fresh s := by
  unfold wireRequest
  split
  · exact failed .encode known le_rfl
  · exact follows_request sent answered fun more extra => failed .disconnected more extra

theorem completes_kept {store next : Store mls} {id : MessageId} {request : Request}
    {response : Response} (completes : Completes e store id request response next) {row : OutboxRow}
    (present : row ∈ store.outbox) (other : row.requestId ≠ id) : row ∈ next.outbox := by
  have filtered : ∀ {u : Store mls}, u.outbox = store.outbox → row ∈ (u.removeOutbox id).outbox :=
    fun same => List.mem_filter.mpr ⟨by rw [same]; exact present, decide_eq_true other⟩
  cases completes with
  | create founds named =>
    refine filtered ?_
    have founded : ∀ {unread : Prop} {u : Store mls} {room : RoomId},
        Founds e.client unread store room u → u.outbox = store.outbox := by
      rintro unread u room (⟨_, -, rfl⟩ | ⟨_, _, -, -, rfl⟩)
      · rfl
      · rfl
    unfold Store.insertCursorOrIgnore
    split
    · exact (frame_upsertRoom named).outbox.trans (founded founds)
    · exact (frame_upsertRoom named).outbox.trans (founded founds)
  | close closes => exact filtered rfl
  | reserve _ _ _ _ => exact filtered rfl
  | accept stores =>
    obtain ⟨_, -, -, -, rfl⟩ := stores_cases stores
    exact present
  | conflict moved forgets => exact filtered (frame_forgets forgets).outbox
  | refuse lasting forgets => exact filtered (frame_forgets forgets).outbox

theorem leaves_sendEntries (entries : List OutboxRow) (after : Nat) (safe : Safe e uses fresh s)
    (present : ∀ entry ∈ entries, entry ∈ s.store.outbox)
    (distinct : (entries.map OutboxRow.requestId).Nodup) :
    Leaves e asked uses (sendEntries e after entries) known fresh s := by
  induction entries generalizing after known fresh s with
  | nil => exact follows_pure safe
  | cons entry entries ih =>
    have apart := List.nodup_cons.mp (by rw [← List.map_cons]; exact distinct)
    unfold sendEntries
    split
    · exact follows_fail safe
    · rename_i requestId request decodes
      split
      · exact follows_fail safe
      rename_i same
      have named : entry.requestId = requestId := (not_not.mp same).symm
      have held : Entry s.store requestId request :=
        ⟨entry, present entry List.mem_cons_self, named, decodes⟩
      refine follows_wire (.inl held) (fun response more extra answer => ?_)
        fun _ _ _ => safe
      have completing : (complete e requestId request response).Ends s fun r t => Coherent t ∧
          (t.store = s.store ∨ Commits e asked more fresh s.store t.store) ∧
          ∀ row ∈ s.store.outbox, row.requestId ≠ requestId → row ∈ t.store.outbox := by
        refine (ends_complete safe.coherent safe.sound.ordered.recorded).mono
          fun r t reached => ⟨reached.1, ?_, ?_⟩
        · exact reached.2.imp_right fun completes => .complete held answer completes
        intro row listed other
        rcases reached.2 with unchanged | completes
        · rw [unchanged]
          exact listed
        · exact completes_kept completes listed other
      refine Follows.bind (follows_writing
        (fun _ store => ∀ row ∈ s.store.outbox, row.requestId ≠ requestId → row ∈ store.outbox)
        safe completing) (fun _ most wide t _ done => ?_) fun _ _ _ _ _ done => done.1
      refine ih entry.rowid done.1 (fun later listed => ?_) apart.2
      refine done.2 later (present later (List.mem_cons_of_mem _ listed)) ?_
      rw [← named]
      exact fun equal => apart.1 (List.mem_map.mpr ⟨later, listed, equal⟩)
    · exact follows_fail safe

theorem takeEntries_front (bytes : Nat) (started : Bool) (rows : List OutboxRow) :
    Store.takeEntries bytes started rows <+: rows := by
  induction rows generalizing bytes started with
  | nil => exact List.prefix_rfl
  | cons row rows ih =>
    unfold Store.takeEntries
    split
    · exact List.nil_prefix
    · exact List.prefix_cons_inj row |>.mpr (ih _ _)

theorem outboxPage_front (store : Store mls) (after : Nat) :
    store.outboxPage after <+: store.outbox.filter fun row => decide (after < row.rowid) :=
  (takeEntries_front _ _ _).trans (List.take_prefix _ _)

theorem outboxPage_sublist (store : Store mls) (after : Nat) :
    (store.outboxPage after).Sublist store.outbox :=
  (outboxPage_front store after).sublist.trans List.filter_sublist

theorem leaves_sendOutbox (fuel after : Nat) (safe : Safe e uses fresh s) :
    Leaves e asked uses (sendOutbox e fuel after) known fresh s := by
  induction fuel generalizing after known fresh s with
  | zero => exact follows_fail safe
  | succ fuel ih =>
    refine follows_query safe (fun t store safe more _ => ?_) fun _ _ _ _ _ safe => safe
    split
    · exact follows_pure safe
    have rows := outboxPage_sublist s.store after
    rw [← store] at rows ⊢
    have distinct := safe.sound.linked.requests.sublist (rows.map _)
    exact Follows.bind (leaves_sendEntries _ after safe (fun _ held => rows.subset held) distinct)
      (fun last most widest u _ reached => ih last reached) fun _ _ _ _ _ reached => reached

end Sending

section Recovery

/-- A read changes nothing; what it returns was answered to it. -/
theorem follows_read {request : Request} (reads : request.isRead = true) {fuel : Nat}
    {f : Response → Program mls α}
    {post : (MessageId × Request → Response → Prop) → (MessageId → Prop) → Session mls →
      Except Error α → Prop} (safe : Safe e uses fresh s)
    (answered : ∀ id response more wide, Safe e uses wide s → known ≤ more →
      more (id, request) response → (f response).Follows (discipline e asked uses) post more wide s)
    (failed : ∀ error more wide, Safe e uses wide s → known ≤ more → post more wide s (.error error)) :
    (read fuel request >>= f).Follows (discipline e asked uses) post known fresh s := by
  have again : ∀ (id : MessageId) (wide : MessageId → Prop) (fuel : Nat)
      (more : MessageId × Request → Response → Prop), known ≤ more →
      (readAgain id request fuel : Program mls Response).Follows (discipline e asked uses)
        (fun most widest t r => known ≤ most ∧ widest = wide ∧ t = s ∧
          ∀ response, r = .ok response → most (id, request) response) more wide s := by
    intro id wide fuel
    induction fuel with
    | zero => exact fun more extra => follows_fail ⟨extra, rfl, rfl, fun _ same => by cases same⟩
    | succ fuel ih =>
      intro more extra
      refine follows_wire (.inr reads) (fun response most further answer => ?_)
        fun _ most further => ⟨extra.trans further, rfl, rfl, fun _ same => by cases same⟩
      have wider := extra.trans further
      split
      · exact ih most wider
      · exact ih most wider
      · refine follows_pure ⟨wider, rfl, rfl, fun other same => ?_⟩
        rw [← Except.ok.inj same]
        exact answer
  have whole : (read fuel request : Program mls Response).Follows (discipline e asked uses)
      (fun most wide t r => known ≤ most ∧ Safe e uses wide s ∧ t = s ∧
        ∀ response, r = .ok response → ∃ id, most (id, request) response) known fresh s := by
    refine follows_draw safe (fun id wide _ safe => ?_)
      ⟨le_rfl, safe, rfl, fun _ same => by cases same⟩
    refine (again id wide fuel known le_rfl).mono fun most widest t r reached => ?_
    obtain ⟨extra, rfl, rfl, value⟩ := reached
    exact ⟨extra, safe, rfl, fun response same => ⟨id, value response same⟩⟩
  refine Follows.bind whole (fun response more wide t _ reached => ?_)
    fun error more wide t _ reached => ?_
  · obtain ⟨extra, safe, rfl, value⟩ := reached
    obtain ⟨id, answer⟩ := value response rfl
    exact answered id response more wide safe extra answer
  · obtain ⟨extra, safe, rfl, -⟩ := reached
    exact failed error more wide safe extra

theorem leaves_fetchWelcomes (fuel : Nat) (safe : Safe e uses fresh s) :
    Leaves e asked uses (fetchWelcomes e fuel) known fresh s := by
  induction fuel generalizing known fresh s with
  | zero => exact follows_fail safe
  | succ fuel ih =>
    refine follows_query safe (fun t store safe more _ => ?_) fun _ _ _ _ _ safe => safe
    refine follows_read rfl safe (fun id response most wide safe _ answer => ?_)
      fun _ _ _ safe _ => safe
    split
    · rename_i after welcomes continues
      split
      · exact follows_fail safe
      rename_i valid
      have start : after.toNat = s.store.welcomeCursor :=
        not_not.mp fun apart => valid (.inl apart)
      split
      · exact follows_pure safe
      have sent : UInt64.ofNat s.store.welcomeCursor = after := by
        rw [← start, UInt64.ofNat_toNat]
      rw [sent] at answer
      rw [← store] at start ⊢
      have saving : (saveWelcomes e t.store.welcomeCursor welcomes).Ends t fun _ u =>
          Coherent u ∧ (u.store = t.store ∨ Commits e asked most wide t.store u.store) := by
        refine (ends_saveWelcomes safe.coherent).mono fun _ u saved => ⟨saved.1, ?_⟩
        refine saved.2.imp_right fun added => ?_
        obtain ⟨rows, last, listed, changed⟩ := added
        rw [changed]
        exact .welcomes start answer listed
      refine Follows.bind (leaves_writing safe saving) (fun _ _ _ u _ safe => ?_)
        fun _ _ _ _ _ safe => safe
      split
      · exact ih safe
      · exact follows_pure safe
    · exact follows_fail safe

theorem leaves_processWelcomes (fuel after : Nat) (safe : Safe e uses fresh s) :
    Leaves e asked uses (processWelcomes e fuel after) known fresh s := by
  induction fuel generalizing after known fresh s with
  | zero => exact follows_fail safe
  | succ fuel ih =>
    have processing : (processWelcome e after).Ends s fun _ t => Coherent t ∧
        (t.store = s.store ∨ Commits e asked known fresh s.store t.store) := by
      refine (ends_processWelcome safe.coherent).mono fun _ t done => ⟨done.1, ?_⟩
      refine done.2.imp_right fun changed => ?_
      obtain ⟨row, pending, unsettled, blocked | ⟨welcome, group, joins⟩⟩ := changed
      · rw [blocked]
        exact .suspend pending unsettled
      · exact .join pending unsettled joins
    refine Follows.bind (leaves_writing safe processing) (fun found _ _ t _ safe => ?_)
      fun _ _ _ _ _ safe => safe
    cases found with
    | none => exact follows_pure safe
    | some cursor => exact ih cursor safe

end Recovery

section Rooms

structure Open (store : Store mls) (room : RoomId) : Prop where
  group : (store.mlsGroups room).isSome
  resolved : isUnresolved store room = false

variable {room : RoomId} {event other : Event} {store next : Store mls}

theorem Open.stores (ready : Open store room) (stores : Stores store event next) :
    Open next room := by
  obtain ⟨_, -, -, -, rfl⟩ := stores_cases stores
  refine ⟨ready.group, Bool.eq_false_iff.mpr fun unresolved => ?_⟩
  obtain ⟨row, present, attempt, waiting, place, sent, unknown⟩ := isUnresolved_iff.mp unresolved
  have before : isUnresolved store room = true := isUnresolved_iff.mpr ⟨row, present, attempt,
    waiting, place, sent, fun found listed => unknown found (List.mem_append_left _ listed)⟩
  rw [ready.resolved] at before
  cases before

theorem Open.settles (ready : Open store room) (sound : Sound e.user store)
    (settles : Settles e store event next) : Open next room := by
  obtain ⟨⟨state, inbox⟩, intents, groups⟩ := settles_tables settles
  refine ⟨(groups room).trans ready.group, Bool.eq_false_iff.mpr fun unresolved => ?_⟩
  obtain ⟨row, present, attempt, waiting, place, -, unknown⟩ := isUnresolved_iff.mp unresolved
  have held := intents row present (by rw [waiting]; exact Option.some_ne_none attempt)
  obtain ⟨request, carries, -⟩ := sound.linked.attempted row held attempt waiting
  have unlisted : ∀ found ∈ store.deliveryInbox, found.eventId ≠ attempt := by
    intro found listed
    rw [inbox] at unknown
    have marked := unknown _ (List.mem_map_of_mem listed)
    split at marked
    · exact marked
    · exact marked
  have before : isUnresolved store room = true := isUnresolved_iff.mpr
    ⟨row, held, attempt, waiting, place, carries_findOutbox carries, unlisted⟩
  rw [ready.resolved] at before
  cases before

theorem holds_stores (held : Holds store other) (stores : Stores store event next) :
    Holds next other := by
  obtain ⟨_, -, -, -, rfl⟩ := stores_cases stores
  obtain ⟨bytes, state, encodes, listed⟩ := held
  exact ⟨bytes, state, encodes, List.mem_append_left _ listed⟩

theorem holds_stored (stores : Stores store event next) : Holds next event := by
  obtain ⟨bytes, -, encodes, -, rfl⟩ := stores_cases stores
  exact ⟨bytes, .received, encodes, List.mem_append_right _ List.mem_cons_self⟩

theorem holds_settles (held : Holds store other) (settles : Settles e store event next) :
    Holds next other := by
  obtain ⟨⟨state, inbox⟩, -, -⟩ := settles_tables settles
  obtain ⟨bytes, old, encodes, listed⟩ := held
  by_cases same : other.id = event.id
  · refine ⟨bytes, state, encodes, ?_⟩
    rw [inbox]
    exact List.mem_map.mpr ⟨_, listed, if_pos (show (rowOf other bytes old).eventId = _ from same)⟩
  · refine ⟨bytes, old, encodes, ?_⟩
    rw [inbox]
    exact List.mem_map.mpr ⟨_, listed, if_neg (show ¬(rowOf other bytes old).eventId = _ from same)⟩

structure Paging (known : MessageId × Request → Response → Prop) (room : RoomId) (expected : Nat)
    (events : List Event) (store : Store mls) : Prop where
  page : ∃ query after page more,
    known (query, .fetchRoomEvents room after) (.roomEvents room after page more) ∧
      ∀ event ∈ events, event ∈ page
  above : cursorOf store room ≤ expected
  next : expected = cursorOf store room ∨
    ∃ row ∈ store.deliveryInbox, row.room = room ∧ row.sequence = expected

def Waiting (store : Store mls) (room : RoomId) (events : List Event) : Prop :=
  ∀ event ∈ events, event.operation.room = room ∧ Holds store event

theorem follows_receivePage (events : List Event) (expected : Nat) (safe : Safe e uses fresh s)
    (ready : Open s.store room) (paging : Paging known room expected events s.store) :
    (receivePage room expected events : Program mls Unit).Follows (discipline e asked uses)
      (fun _ wide t r => Safe e uses wide t ∧ (r = .ok () → Open t.store room ∧
        Waiting t.store room events ∧
        ∀ old, Waiting s.store room old → Waiting t.store room old)) known fresh s := by
  induction events generalizing expected known fresh s with
  | nil =>
    refine follows_pure ⟨safe, fun _ => ⟨ready, fun _ none => ?_, fun _ waiting => waiting⟩⟩
    cases none
  | cons event events ih =>
    unfold receivePage
    split
    · exact follows_fail ⟨safe, fun same => by cases same⟩
    rename_i continues
    have place : event.operation.room = room := not_not.mp fun apart => continues (.inl apart)
    have position : event.operation.parent.toNat = expected :=
      not_not.mp fun apart => continues (.inr apart)
    obtain ⟨id, after, page, more, answer, listed⟩ := paging.page
    have receiving : (receive event : Service mls Unit).Ends s fun r t => Coherent t ∧
        (t.store = s.store ∨ Commits e asked known fresh s.store t.store) ∧
        (r = .ok () → t.store = s.store ∧ Holds s.store event ∨
          Stores s.store event t.store) := by
      refine (ends_receive safe.sound.ordered.recorded).mono fun r t reached => ?_
      cases r with
      | ok _ =>
        rcases reached.2 with ⟨same, held⟩ | stores
        · exact ⟨coherent_of_groups safe.coherent reached.1 (by rw [same]), .inl same,
            fun _ => .inl ⟨same, held⟩⟩
        refine ⟨coherent_of_groups safe.coherent reached.1 (stores_groups stores), .inr ?_,
          fun _ => .inr stores⟩
        refine .receive ready.group answer (listed event List.mem_cons_self) place ?_ ?_ stores
        · rw [position]
          exact paging.above
        · rw [position]
          exact paging.next
      | error _ =>
        have same : t.store = s.store := reached.2
        exact ⟨coherent_of_groups safe.coherent reached.1 (by rw [same]), .inl same,
          fun same => by cases same⟩
    refine Follows.bind (follows_writing (fun r store => r = .ok () →
      store = s.store ∧ Holds s.store event ∨ Stores s.store event store) safe receiving)
      (fun _ most wide t extra done => ?_)
      fun _ _ _ _ _ done => ⟨done.1, fun same => by cases same⟩
    obtain ⟨safe', outcome⟩ := done
    have facts : Open t.store room ∧ Holds t.store event ∧
        cursorOf t.store room = cursorOf s.store room ∧
        ∀ other, Holds s.store other → Holds t.store other := by
      rcases outcome rfl with ⟨same, held⟩ | stores
      · rw [same]
        exact ⟨ready, held, rfl, fun _ kept => kept⟩
      · refine ⟨ready.stores stores, holds_stored stores, ?_, fun _ kept => holds_stores kept stores⟩
        obtain ⟨_, -, -, -, shape⟩ := stores_cases stores
        rw [shape]
        rfl
    obtain ⟨ready', held, cursor, kept⟩ := facts
    have paging' : Paging most room (expected + 1) events t.store := by
      refine ⟨⟨id, after, page, more, extra _ _ answer,
        fun later present => listed later (List.mem_cons_of_mem _ present)⟩, ?_, .inr ?_⟩
      · rw [cursor]
        exact Nat.le_succ_of_le paging.above
      · obtain ⟨bytes, state, -, present⟩ := held
        refine ⟨_, present, place, ?_⟩
        change event.operation.parent.toNat + 1 = expected + 1
        rw [position]
    refine (ih (expected + 1) safe' ready' paging').mono fun _ wide u r reached => ?_
    refine ⟨reached.1, fun finished => ?_⟩
    obtain ⟨ready'', waiting, carried⟩ := reached.2 finished
    refine ⟨ready'', fun later present => ?_, fun old before => ?_⟩
    · rcases List.mem_cons.mp present with rfl | rest
      · have one : Waiting t.store room [later] := fun found single => by
          rw [List.mem_singleton.mp single]
          exact ⟨place, held⟩
        exact carried [later] one later List.mem_cons_self
      · exact waiting later rest
    · exact carried old fun found present => ⟨(before found present).1, kept found (before found present).2⟩

theorem follows_applyPage (events : List Event) (safe : Safe e uses fresh s)
    (ready : Open s.store room) (waiting : Waiting s.store room events) :
    (applyPage e events).Follows (discipline e asked uses)
      (fun _ wide t r => Safe e uses wide t ∧ (r = .ok true → Open t.store room)) known fresh s := by
  induction events generalizing known fresh s with
  | nil => exact follows_pure ⟨safe, fun _ => ready⟩
  | cons event events ih =>
    obtain ⟨place, held⟩ := waiting event List.mem_cons_self
    have applying : (applyEvent e event).Ends s fun _ t => Coherent t ∧
        (t.store = s.store ∨ Commits e asked known fresh s.store t.store) ∧
        (t.store = s.store ∨ Settles e s.store event t.store) := by
      refine (ends_applyEvent safe.coherent).mono fun _ t reached => ⟨reached.1, ?_, ?_⟩
      · refine reached.2.imp_right fun settled => .settle ⟨held, settled.1, ?_, ?_⟩ settled.2
        · rw [place]
          exact ready.group
        · rw [place]
          exact ready.resolved
      · exact reached.2.imp_right fun settled => settled.2
    refine Follows.bind (follows_writing (fun _ store => store = s.store ∨
      Settles e s.store event store) safe applying) (fun settled most wide t _ done => ?_)
      fun _ _ _ _ _ done => ⟨done.1, fun same => by cases same⟩
    split
    · refine ih done.1 ?_ fun later present => ?_
      · rcases done.2 with same | settles
        · rw [same]
          exact ready
        · exact ready.settles safe.sound settles
      · obtain ⟨there, kept⟩ := waiting later (List.mem_cons_of_mem _ present)
        rcases done.2 with same | settles
        · rw [same]
          exact ⟨there, kept⟩
        · exact ⟨there, holds_settles kept settles⟩
    · exact follows_pure ⟨done.1, fun same => by cases same⟩

theorem leaves_syncRoom (head fuel : Nat) (safe : Safe e uses fresh s) (ready : Open s.store room) :
    Leaves e asked uses (syncRoom e room head fuel) known fresh s := by
  induction fuel generalizing known fresh s with
  | zero => exact follows_fail safe
  | succ fuel ih =>
    refine follows_query safe (fun t store safe more _ => ?_) fun _ _ _ _ _ safe => safe
    split
    · exact follows_pure safe
    refine follows_query safe (fun u same safe most _ => ?_) fun _ _ _ _ _ safe => safe
    refine follows_read rfl safe (fun id response known' wide safe _ answer => ?_)
      fun _ _ _ safe _ => safe
    have here : u.store = s.store := same.trans store
    split
    · rename_i answered after events continues
      split
      · exact follows_fail safe
      rename_i valid
      have place : answered = room := not_not.mp fun apart => valid (.inl apart)
      have start : after.toNat = cursorOf t.store room :=
        not_not.mp fun apart => valid (.inr (.inl apart))
      have sent : UInt64.ofNat (cursorOf t.store room) = after := by
        rw [← start, UInt64.ofNat_toNat]
      rw [sent, place] at answer
      have cursor : cursorOf u.store room = cursorOf t.store room := by rw [same]
      have paging : Paging known' room (cursorOf t.store room) events u.store :=
        ⟨⟨id, after, events, continues, answer, fun _ present => present⟩, cursor.le,
          .inl cursor.symm⟩
      have ready' : Open u.store room := by
        rw [here]
        exact ready
      refine Follows.bind (follows_receivePage events _ safe ready' paging)
        (fun _ _ _ v _ received => ?_) fun _ _ _ _ _ received => received.1
      obtain ⟨safe, finished⟩ := received
      obtain ⟨ready, waiting, -⟩ := finished rfl
      refine Follows.bind (follows_applyPage events safe ready waiting)
        (fun applied _ _ w _ reached => ?_) fun _ _ _ _ _ reached => reached.1
      split
      · rename_i all
        exact ih reached.1 (reached.2 (congrArg Except.ok all))
      · exact follows_pure reached.1
    · exact follows_fail safe

theorem leaves_syncHeads (fuel : Nat) (heads : List RoomHead) (after : Option RoomId)
    (safe : Safe e uses fresh s) : Leaves e asked uses (syncHeads e fuel after heads) known fresh s := by
  induction heads generalizing after known fresh s with
  | nil => exact follows_pure safe
  | cons head heads ih =>
    unfold syncHeads
    split
    · exact follows_fail safe
    refine follows_query safe (fun t _ safe more _ => ?_) fun _ _ _ _ _ safe => safe
    split
    · exact follows_fail safe
    have naming : (execute fun store => store.upsertRoom head.room head.name "subscribed" :
        Service mls Unit).Ends t fun _ u => Coherent u ∧
          (u.store = t.store ∨ Commits e asked more fresh t.store u.store) := by
      refine ends_execute.mono fun r u reached => ?_
      cases r with
      | ok _ =>
        exact ⟨coherent_of_groups safe.coherent reached.1 (upsertRoom_groups reached.2),
          .inr (.name reached.2)⟩
      | error _ =>
        exact ⟨coherent_of_groups safe.coherent reached.1 (by rw [reached.2]),
          .inl reached.2⟩
    refine Follows.bind (leaves_writing safe naming) (fun _ most wide u _ safe => ?_)
      fun _ _ _ _ _ safe => safe
    refine follows_query safe (fun v same safe _ _ => ?_) fun _ _ _ _ _ safe => safe
    split
    · exact ih (some head.room) safe
    rename_i resolved
    refine follows_hasGroup safe (fun present w held same' safe _ _ => ?_)
      fun _ _ _ _ _ safe => safe
    split
    · exact ih (some head.room) safe
    rename_i there
    have ready : Open w.store head.room := by
      refine ⟨?_, ?_⟩ <;> rw [same']
      · exact held (by simpa using there)
      rw [same]
      exact Bool.eq_false_iff.mpr resolved
    exact Follows.bind (leaves_syncRoom _ fuel safe ready)
      (fun _ _ _ _ _ safe => ih (some head.room) safe) fun _ _ _ _ _ safe => safe

theorem leaves_syncIndex (fuel : Nat) (after : Option RoomId) (safe : Safe e uses fresh s) :
    Leaves e asked uses (syncIndex e fuel after) known fresh s := by
  induction fuel generalizing after known fresh s with
  | zero => exact follows_fail safe
  | succ fuel ih =>
    refine follows_read rfl safe (fun id response more wide safe _ _ => ?_)
      fun _ _ _ safe _ => safe
    split
    · split
      · exact follows_fail safe
      refine Follows.bind (leaves_syncHeads (fuel + 1) _ after safe)
        (fun last _ _ _ _ safe => ?_) fun _ _ _ _ _ safe => safe
      split
      · exact ih last safe
      · exact follows_pure safe
    · exact follows_fail safe

theorem leaves_synchronize (fuel : Nat) (safe : Safe e uses fresh s) :
    Leaves e asked uses (synchronize e fuel) known fresh s := by
  refine Follows.bind (leaves_fetchWelcomes fuel safe) (fun _ _ _ _ _ safe => ?_)
    fun _ _ _ _ _ safe => safe
  refine Follows.bind (leaves_processWelcomes fuel 0 safe) (fun _ _ _ _ _ safe => ?_)
    fun _ _ _ _ _ safe => safe
  exact leaves_syncIndex fuel none safe

end Rooms

section Building

/-- An intent that waits for an attempt, among those still to be looked at. -/
def Idle (store : Store mls) (rows : List IntentRow) : Prop :=
  ∀ row ∈ rows, row ∈ store.deliveryIntents ∧ row.attempt = none

/-- One intent that waits for an attempt; over a pending commit alone it fails for it. -/
theorem follows_buildAttempt {row : IntentRow} (safe : Safe e uses fresh s)
    (planned : row ∈ s.store.deliveryIntents) (idle : row.attempt = none) :
    (buildAttempt e row).Follows (discipline e asked uses) (fun _ wide t r => Safe e uses wide t ∧
      Beside row s.store t.store ∧ (Unpending s.store row.room → r ≠ .error unresolvedCommit))
      known fresh s := by
  refine follows_hasGroup safe (fun present t held first safe more _ => ?_)
    fun error _ t other same safe => ⟨safe, Beside.of_eq same, fun _ => error_spared other⟩
  split
  · exact follows_pure ⟨safe, Beside.of_eq first, fun _ => ok_spared _⟩
  rename_i there
  refine follows_query safe (fun u second safe most _ => ?_) fun error _ t other same safe =>
    ⟨safe, Beside.of_eq (same.trans first), fun _ => error_spared other⟩
  refine follows_query safe (fun v third safe _ _ => ?_) fun error _ t other same safe =>
    ⟨safe, Beside.of_eq ((same.trans second).trans first), fun _ => error_spared other⟩
  have here : v.store = s.store := (third.trans second).trans first
  split
  · exact follows_pure ⟨safe, Beside.of_eq here, fun _ => ok_spared _⟩
  rename_i clear
  refine follows_draw safe (fun id wide new safe => ?_)
    ⟨safe, Beside.of_eq here, fun _ => error_spared (by simp [unresolvedCommit])⟩
  refine follows_query safe (fun w fourth safe _ _ => ?_) fun error _ t other same safe =>
    ⟨safe, Beside.of_eq (same.trans here), fun _ => error_spared other⟩
  refine follows_look (fun _ => True) safe (minds_transaction (fun _ _ _ => trivial) minds_call)
    (ends_identity.mono fun _ x keeps => ⟨keeps.store, keeps.coherent safe.coherent, fun _ _ => trivial⟩)
    (fun _ x _ fifth safe known' _ => ?_) fun error _ t other same safe =>
    ⟨safe, Beside.of_eq (same.trans (fourth.trans here)), fun _ => error_spared other⟩
  have now : x.store = s.store := fifth.trans (fourth.trans here)
  have group : (x.store.mlsGroups row.room).isSome := by
    rw [now]
    exact held (by simpa using there)
  have parent : cursorOf v.store row.room = cursorOf x.store row.room := by rw [here, now]
  have unblocked : isBlocked x.store row.room (cursorOf x.store row.room) = false := by
    rw [second, first] at clear
    rw [now]
    exact Bool.eq_false_iff.mpr clear
  rw [parent]
  have building : (attemptBody e row id (cursorOf x.store row.room)).Ends x fun r y => Coherent y ∧
      (y.store = x.store ∨ Commits e asked known' wide x.store y.store) ∧
      Beside row s.store y.store ∧ (Unpending s.store row.room → r ≠ .error unresolvedCommit) := by
    intro here
    have built := (ends_attemptBody safe.coherent :
      (attemptBody e row id (cursorOf x.store row.room)).Ends x _) here
    have spared : Unpending s.store row.room →
        (attemptBody e row id (cursorOf x.store row.room) here x).1 ≠ .error unresolvedCommit :=
      fun idle => spared_attemptBody safe.coherent (by rw [now]; exact idle) here
    rcases ended : attemptBody e row id (cursorOf x.store row.room) here x with ⟨error | _, y⟩ <;>
      rw [ended] at built spared
    · have same : y.store = x.store := built.2
      exact ⟨built.1, .inl same, Beside.of_eq (same.trans now), spared⟩
    obtain ⟨coherent, request, made, journaled, builds, journals, store⟩ := built
    refine ⟨coherent, ?_, ?_, spared⟩ <;> rw [store]
    · exact .inr (.attempt (by rw [now]; exact planned) idle new group unblocked builds journals)
    · rw [now] at builds
      exact beside_attempt builds journals
  refine Follows.bind (follows_writing (fun r store => Beside row s.store store ∧
    (Unpending s.store row.room → r ≠ .error unresolvedCommit)) safe building)
    (fun _ _ _ _ _ done => follows_pure ⟨done.1, done.2.1, fun _ => ok_spared _⟩)
    fun _ _ _ _ _ done => ⟨done.1, done.2.1, fun idle => error_spared fun same =>
      done.2.2 idle (congrArg _ same)⟩

theorem follows_buildRows (rows : List IntentRow) (built : Bool) (safe : Safe e uses fresh s)
    (idle : Idle s.store rows) (distinct : (rows.map IntentRow.id).Nodup)
    (apart : (rows.map IntentRow.room).Nodup) :
    (buildRows e rows built).Follows (discipline e asked uses) (fun _ wide t r => Safe e uses wide t ∧
      ((∀ row ∈ rows, Unpending s.store row.room) → r ≠ .error unresolvedCommit)) known fresh s := by
  induction rows generalizing built known fresh s with
  | nil => exact follows_pure ⟨safe, fun _ => ok_spared _⟩
  | cons row rows ih =>
    have ids := List.nodup_cons.mp (by rw [← List.map_cons]; exact distinct)
    have rooms := List.nodup_cons.mp (by rw [← List.map_cons]; exact apart)
    obtain ⟨planned, waiting⟩ := idle row List.mem_cons_self
    refine Follows.bind (follows_buildAttempt safe planned waiting) (fun one _ _ t _ reached => ?_)
      fun _ _ _ _ _ reached => ⟨reached.1, fun clear => error_spared fun same =>
        reached.2.2 (clear row List.mem_cons_self) (congrArg _ same)⟩
    obtain ⟨safe, beside, -⟩ := reached
    refine (ih (built || one) safe (fun later present => ?_) ids.2 rooms.2).mono
      fun _ _ _ _ reached => ⟨reached.1, fun clear => reached.2 fun later present group held => ?_⟩
    · obtain ⟨listed, open'⟩ := idle later (List.mem_cons_of_mem _ present)
      refine ⟨beside.intents later listed fun same => ?_, open'⟩
      exact ids.1 (List.mem_map.mpr ⟨later, present, same⟩)
    · rw [beside.groups] at held
      · exact clear later (List.mem_cons_of_mem _ present) group held
      · exact fun same => rooms.1 (List.mem_map.mpr ⟨later, present, same⟩)

theorem follows_buildAttempts (safe : Safe e uses fresh s) :
    (buildAttempts e).Follows (discipline e asked uses) (fun _ wide t r => Safe e uses wide t ∧
      ((∀ row ∈ s.store.deliveryIntents, row.attempt = none → Unpending s.store row.room) →
        r ≠ .error unresolvedCommit)) known fresh s := by
  have linked := safe.sound.linked
  refine follows_query safe (fun t same safe _ _ => ?_)
    fun _ _ _ other _ safe => ⟨safe, fun _ => error_spared other⟩
  refine (follows_buildRows _ false safe (fun row present => ?_) ?_ ?_).mono
    fun _ _ _ _ reached => ⟨reached.1, fun clear => reached.2 fun row present => ?_⟩
  · obtain ⟨listed, waiting⟩ := List.mem_filter.mp present
    rw [same]
    exact ⟨listed, of_decide_eq_true waiting⟩
  · exact linked.intents.sublist (List.filter_sublist.map _)
  · exact linked.rooms.sublist (List.filter_sublist.map _)
  · obtain ⟨listed, waiting⟩ := List.mem_filter.mp present
    rw [same]
    exact clear row listed (of_decide_eq_true waiting)

theorem leaves_driveRounds (fuel rounds : Nat) (safe : Safe e uses fresh s) :
    Leaves e asked uses (driveRounds e fuel rounds) known fresh s := by
  induction rounds generalizing known fresh s with
  | zero => exact follows_pure safe
  | succ rounds ih =>
    refine Follows.bind (leaves_sendOutbox fuel 0 safe) (fun _ _ _ _ _ safe => ?_)
      fun _ _ _ _ _ safe => safe
    refine Follows.bind (leaves_synchronize fuel safe) (fun _ _ _ _ _ safe => ?_)
      fun _ _ _ _ _ safe => safe
    refine Follows.bind (follows_buildAttempts safe) (fun built _ _ _ _ reached => ?_)
      fun _ _ _ _ _ reached => reached.1
    split
    · exact ih reached.1
    · exact follows_pure reached.1

theorem leaves_driveInner (fuel : Nat) (safe : Safe e uses fresh s) :
    Leaves e asked uses (driveInner e fuel) known fresh s :=
  leaves_driveRounds fuel 4 safe

end Building

end Grotto.Client.Conduct
