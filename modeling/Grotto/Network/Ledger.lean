/- GID: Grotto/Network/Ledger
   digest: What relay and clients know of each other in every state of a run. -/

import Grotto.Client.Intents
import Grotto.Network.Model
import Grotto.Relay.Idempotence
import Grotto.Relay.Membership

set_option autoImplicit false

namespace Grotto.Network.Ledger

open Protocol.Records Protocol.Transcripts
open Client.Library Client.Tables Client.Delivery Client.Changes
open Client.Frames Client.Consistency Client.Machine Client.Outbox
open Client.Intents
open Model
open Relay.Storage (Db EventRow RequestRow)
open Relay.Deliver (deliver)
open Relay.Invariant (Valid)
open Relay.Idempotence (Saved)
open Relay.Log (Extends)
open Relay.Membership (Members)

variable {mls : Mls}

variable {sha256 : Hash} {db next : Db} {response : Response}

section Answers

variable {user : UserId} {request : Request} {id : MessageId} {here : Relay.Storage.Surroundings}

inductive Fits (user : UserId) (id : MessageId) : Request → Response → Prop
  | rejected {request : Request} (reason : Rejection) : Fits user id request (.rejected reason)
  | acknowledged {events : List MessageId} {welcomes : List UInt64} :
      Fits user id (.acknowledge events welcomes) .acknowledged
  | conflict {operation : Append} {head : UInt64} (moved : head ≠ operation.parent) :
      Fits user id (.appendRoomOperation operation) (.headConflict operation.room head)
  | created {name : String} {room : RoomId} : Fits user id (.createRoom name) (.roomCreated room)
  | published {packages : List Grotto.Format.Varint.Bytes} {count : UInt64}
      (all : count.toNat = packages.length) :
      Fits user id (.publishKeyPackages packages) (.keyPackagesPublished count)
  | granted {requester : UserId} {allowed : Bool} :
      Fits user id (.setFetchGrant requester allowed) .fetchGrantSet
  | reserved {recipient : UserId} {package : Grotto.Format.Varint.Bytes} :
      Fits user id (.reserveKeyPackage recipient) (.keyPackage recipient package)
  | accepted {operation : Append} :
      Fits user id (.appendRoomOperation operation) (.appendAccepted ⟨id, user, operation⟩)

theorem fits_of_writes (valid : Valid sha256 db) (durable : request.isRead = false)
    (writes : Relay.Steps.Writes db user id request response next) :
    Fits user id request response := by
  cases writes with
  | rejected reason => exact .rejected reason
  | read read =>
    rw [durable] at read
    cases read
  | acknowledged => exact .acknowledged
  | @conflict operation stale =>
    refine .conflict fun same => stale ?_
    rw [← same, toNat_ofNat_i64 (valid.log.head_le _)]
  | room => exact .created
  | @packages packages _ few =>
    refine .published (UInt64.toNat_ofNat_of_lt' (lt_of_le_of_lt few (by decide)))
  | granted => exact .granted
  | revoked => exact .granted
  | reserved => exact .reserved
  | event => exact .accepted
  | invitation => exact .accepted

structure Booked (sha256 : Hash) (db : Db) (user : UserId) (id : MessageId) (request : Request)
    (response : Response) : Prop where
  saved : Saved sha256 db user id request response
  durable : request.isRead = false
  settles : Relay.Steps.Settles request response
  fits : Fits user id request response

structure Shows (db : Db) (user : UserId) (request : Request) (response : Response) : Prop where
  events : ∀ room start events more, request = .fetchRoomEvents room start →
    response = .roomEvents room start events more → db.isSubscribed room user = true ∧
      ∀ event ∈ events, ∃ row ∈ db.deliveryEvents, Relay.Invariant.Holds row event ∧ row.room = room
  welcomes : ∀ start welcomes more, request = .fetchWelcomes start →
    response = .welcomes start welcomes more → ∀ welcome ∈ welcomes, ∃ row ∈ db.deliveryWelcomes,
      row.recipient = user ∧ Relay.Recovery.DeliversWelcome row welcome

/-- An answer of the relay to a client, as later states bear it out. -/
inductive Told (sha256 : Hash) (db : Db) (user : UserId) (id : MessageId) (request : Request) :
    Response → Prop
  | booked {response : Response} (booked : Booked sha256 db user id request response) :
      Told sha256 db user id request response
  | transient {reason : Rejection} (passing : isPassing reason = true) :
      Told sha256 db user id request (.rejected reason)
  | receipt {reason : Rejection} (receipt : request.isAcknowledge = true) :
      Told sha256 db user id request (.rejected reason)
  | page {response : Response} (read : request.isRead = true)
      (shows : Shows db user request response) : Told sha256 db user id request response

theorem Booked.mono (booked : Booked sha256 db user id request response) (grown : Extends db next) :
    Booked sha256 next user id request response :=
  ⟨booked.saved.mono grown, booked.durable, booked.settles, booked.fits⟩

theorem isSubscribed_mono (grown : Extends db next) {room : RoomId}
    (subscribed : db.isSubscribed room user = true) : next.isSubscribed room user = true := by
  rw [Relay.Invariant.isSubscribed_iff] at subscribed ⊢
  exact grown.subscribers.subset subscribed

theorem Shows.mono (shows : Shows db user request response) (grown : Extends db next) :
    Shows next user request response where
  events room start events more asked page := by
    obtain ⟨subscribed, rows⟩ := shows.events room start events more asked page
    refine ⟨isSubscribed_mono grown subscribed, fun event listed => ?_⟩
    obtain ⟨row, logged, holds⟩ := rows event listed
    exact ⟨row, grown.events.subset logged, holds⟩
  welcomes start welcomes more asked page welcome listed := by
    obtain ⟨row, stored, holds⟩ := shows.welcomes start welcomes more asked page welcome listed
    exact ⟨row, grown.welcomes.subset stored, holds⟩

theorem Told.mono (told : Told sha256 db user id request response) (grown : Extends db next) :
    Told sha256 next user id request response := by
  cases told with
  | booked booked => exact .booked (booked.mono grown)
  | transient passing => exact .transient passing
  | receipt receipt => exact .receipt receipt
  | page read shows => exact .page read (shows.mono grown)

theorem subscribed_of_page
    {room : RoomId} {start : UInt64} (page : Relay.Steps.isPage response = true)
    (executed : Relay.Deliver.execute here db user id (.fetchRoomEvents room start) =
      .ok (response, next)) : db.isSubscribed room user = true := by
  have result := (Relay.Steps.map_unchanged executed).1
  unfold Relay.Deliver.fetchRoomEvents at result
  split at result
  · obtain rfl := Except.ok.inj result
    cases page
  split at result
  · obtain rfl := Except.ok.inj result
    cases page
  · rename_i subscribed
    exact not_not.mp subscribed

theorem shows_of_answer (valid : Valid sha256 db) (read : request.isRead = true)
    (answer : (deliver sha256 here db user id request).1 = .ok response) :
    Shows db user request response := by
  refine ⟨?_, ?_⟩
  · rintro room start events more rfl rfl
    obtain ⟨-, env, executed⟩ := Relay.Recovery.page_answer valid rfl read answer
    refine ⟨subscribed_of_page rfl executed, fun event listed => ?_⟩
    obtain ⟨-, page, holds, isPage⟩ := Relay.Recovery.roomEvents_answer valid answer
    obtain ⟨row, inside, held⟩ := Relay.Recovery.right_of_mem holds listed
    obtain ⟨logged, place⟩ := List.mem_filter.mp (List.mem_filter.mp (isPage.front.subset inside)).1
    exact ⟨row, logged, held, of_decide_eq_true place⟩
  · rintro start welcomes more rfl rfl welcome listed
    obtain ⟨-, page, holds, paged⟩ := Relay.Recovery.welcomes_answer valid answer
    obtain ⟨row, inside, held⟩ := Relay.Recovery.right_of_mem holds listed
    obtain ⟨stored, addressed⟩ := List.mem_filter.mp (List.mem_filter.mp
      (paged.isPage.front.subset inside)).1
    exact ⟨row, stored, of_decide_eq_true addressed, held⟩

end Answers

variable {other : UserId}

section Accounts

variable {id : MessageId}

def Uses (s : Store mls) (id : MessageId) : Prop :=
  (∃ row ∈ s.outbox, row.requestId = id) ∨ ∃ row ∈ s.deliveryIntents, row.id = id

/-- The books of a client: one request for an identifier, here and at the relay, and answers that
the relay stands by. -/
structure Accounts (d : Deployment mls) (s : System mls) (user : UserId) (e : Engine mls) : Prop where
  governed : ∃ fresh, Governed e Uses fresh (s.clients user) ∧ ∀ id, fresh id →
    (user, id) ∈ s.drawn ∧ ∀ request, (user, id, request) ∈ s.sent → request.isRead = true
  entries : ∀ id request, Carries (s.clients user).store id request →
    request.isAcknowledge = true ∨ (user, id) ∈ s.drawn
  intents : ∀ row ∈ (s.clients user).store.deliveryIntents, (user, row.id) ∈ s.drawn
  posted : ∀ id request, (user, id, request) ∈ s.sent → request.isRead = false →
    request.isAcknowledge = true ∨ (user, id) ∈ s.drawn
  unique : ∀ id request other, (user, id, request) ∈ s.sent → (user, id, other) ∈ s.sent →
    request.isRead = false → other.isRead = false → request = other
  current : ∀ id request other, Carries (s.clients user).store id request →
    (user, id, other) ∈ s.sent → other.isRead = false → other = request
  journal : ∀ id row, s.relay.savedRequest user id = some row → ∃ request response,
    (user, id, request) ∈ s.sent ∧ Booked d.sha256 s.relay user id request response
  told : ∀ query response, (user, query, response) ∈ s.replies ∨
    (s.clients user).known query response → Told d.sha256 s.relay user query.1 query.2 response

structure Joint (d : Deployment mls) (s : System mls) : Prop where
  valid : Valid d.sha256 s.relay
  members : Members s.relay
  once : (s.drawn.map Prod.snd).Nodup
  owned : ∀ user id, (user, id) ∈ s.drawn → ∀ row ∈ s.relay.deliveryEvents, row.eventId = id →
    row.sender = user
  accounts : ∀ user e, d.engine user = some e → Accounts d s user e

variable {d : Deployment mls} {s t : System mls} {user : UserId} {e : Engine mls}

theorem saved_unique {request other : Request} {response answer : Response}
    (left : Saved sha256 db user id request response)
    (right : Saved sha256 db user id other answer) : response = answer := by
  obtain ⟨row, wire, found, -, -, decoded⟩ := left
  obtain ⟨row', wire', found', -, -, decoded'⟩ := right
  rw [found] at found'
  obtain rfl := Option.some.inj found'
  exact Except.ok.inj (decoded.symm.trans decoded')

theorem Accounts.sound (accounts : Accounts d s user e) : Sound e.user (s.clients user).store := by
  obtain ⟨fresh, governed, -⟩ := accounts.governed
  exact governed.sound

theorem Accounts.elsewhere (accounts : Accounts d s user e)
    (clients : t.clients user = s.clients user) (drawn : s.drawn ⊆ t.drawn)
    (sent : ∀ query, (user, query) ∈ t.sent ↔ (user, query) ∈ s.sent) (relay : t.relay = s.relay)
    (replies : t.replies = s.replies) : Accounts d t user e where
  governed := by
    obtain ⟨fresh, governed, pool⟩ := accounts.governed
    simp only [clients, sent]
    exact ⟨fresh, governed, fun id new => ⟨drawn (pool id new).1, (pool id new).2⟩⟩
  entries := by
    rw [clients]
    exact fun id request carries => (accounts.entries id request carries).imp_right (drawn ·)
  intents := by
    rw [clients]
    exact fun row planned => drawn (accounts.intents row planned)
  posted := by
    simp only [sent]
    exact fun id request posted durable =>
      (accounts.posted id request posted durable).imp_right (drawn ·)
  unique := by
    simp only [sent]
    exact accounts.unique
  current := by
    simp only [clients, sent]
    exact accounts.current
  journal := by
    simp only [relay, sent]
    exact accounts.journal
  told := by
    rw [relay, clients, replies]
    exact accounts.told

theorem Accounts.used (accounts : Accounts d s user e)
    (used : Uses (s.clients user).store id) : (user, id) ∈ s.drawn ∨
      ∃ events welcomes, Carries (s.clients user).store id (.acknowledge events welcomes) := by
  rcases used with ⟨row, present, rfl⟩ | ⟨row, planned, rfl⟩
  · obtain ⟨request, encodes⟩ := accounts.sound.linked.journaled row present
    have carries : Carries (s.clients user).store row.requestId request := ⟨row, present, rfl, encodes⟩
    rcases accounts.entries _ _ carries with receipt | drawn
    · cases request with
      | acknowledge events welcomes => exact .inr ⟨events, welcomes, carries⟩
      | _ => cases receipt
    · exact .inl drawn
  · exact .inl (accounts.intents row planned)

theorem isNew_undrawn (new : s.isNew id = true) : (other, id) ∉ s.drawn := by
  intro drawn
  have apart := List.all_eq_true.mp (Bool.and_eq_true_iff.mp (Bool.and_eq_true_iff.mp new).1).1 _ drawn
  exact of_decide_eq_true apart rfl

theorem isNew_unsent (new : s.isNew id = true) {request : Request} :
    (other, id, request) ∉ s.sent := by
  intro sent
  have apart := List.all_eq_true.mp (Bool.and_eq_true_iff.mp (Bool.and_eq_true_iff.mp new).1).2 _ sent
  exact of_decide_eq_true apart rfl

theorem isNew_unlogged (new : s.isNew id = true) : s.relay.hasEvent id = false := by
  simpa using (Bool.and_eq_true_iff.mp new).2

theorem drawing_of_mem {move : Move mls} {owner : UserId}
    (drawn : (owner, id) ∈ System.drawnBy user move) : owner = user ∧ move = .draw (some id) := by
  unfold System.drawnBy at drawn
  split at drawn
  · cases List.mem_singleton.mp drawn
    exact ⟨rfl, rfl⟩
  · cases drawn

theorem drawnBy_cases (user : UserId) (move : Move mls) : System.drawnBy user move = [] ∨
    ∃ id, move = .draw (some id) ∧ System.drawnBy user move = [(user, id)] := by
  unfold System.drawnBy
  split
  · exact .inr ⟨_, rfl, rfl⟩
  · exact .inl rfl

section Client

variable {move : Move mls} {c : Process mls} {query : MessageId × Request}

theorem carries_made {fresh : MessageId → Prop} (moves : Moves e fresh (s.clients user) c)
    {id : MessageId} {request : Request} (carries : Carries c.store id request) :
    Carries (s.clients user).store id request ∨ fresh id ∨ request.isAcknowledge = true := by
  rcases moves with same | commits
  · rw [same] at carries
    exact .inl carries
  rcases carries_origin commits carries with old | originates
  · exact .inl old
  cases originates with
  | command _ _ new => exact .inr (.inl new)
  | attempt _ _ new _ _ _ _ => exact .inr (.inl new)
  | settled _ _ => exact .inr (.inr rfl)
  | joined _ _ => exact .inr (.inr rfl)

theorem told_of_answer (accounts : Accounts d s user e)
    (may : s.mayAnswer user query response = true) :
    Told d.sha256 s.relay user query.1 query.2 response := by
  rcases of_decide_eq_true may with rfl | rfl | replied
  · exact .transient rfl
  · exact .transient rfl
  · exact accounts.told query response (.inl replied)

theorem Accounts.unused (accounts : Accounts d s user e) (runs : d.engine user = some e)
    (taken : (s.clients user).step e move = some c)
    (new : ∀ id, move = .draw (some id) → s.isNew id = true)
    (apart : ReceiptsApart d { s.setClient user c with drawn := System.drawnBy user move ++ s.drawn }) :
    ∀ id, move = .draw (some id) → ¬Uses (s.clients user).store id := by
  rintro id rfl used
  rcases accounts.used used with drawn | ⟨events, welcomes, carries⟩
  · exact isNew_undrawn (new id rfl) drawn
  -- A draw leaves the tables alone, so the receipt would be under a drawn identifier.
  have now : (s.setClient user c).clients user = c := Function.update_self _ _ _
  have same : c.store = (s.clients user).store := by
    cases step_takes taken
    rfl
  have receipts := apart user e runs
  simp only [now, same] at receipts
  exact (receipts id events welcomes carries).1 List.mem_cons_self

theorem Accounts.moves (accounts : Accounts d s user e) (runs : d.engine user = some e)
    (taken : (s.clients user).step e move = some c)
    (new : ∀ id, move = .draw (some id) → s.isNew id = true)
    (apart : ReceiptsApart d { s.setClient user c with drawn := System.drawnBy user move ++ s.drawn }) :
    ∃ fresh, (∀ id, fresh id → (user, id) ∈ s.drawn ∧
      (¬Uses (s.clients user).store id) ∧ ∀ request, (user, id, request) ∈ s.sent →
        request.isRead = true) ∧ Moves e fresh (s.clients user) c := by
  obtain ⟨fresh, governed, pool⟩ := accounts.governed
  have unused := accounts.unused runs taken new apart
  refine ⟨fresh, fun id drawn => ⟨(pool id drawn).1, governed.unused id drawn, (pool id drawn).2⟩, ?_⟩
  exact (governed_step governed unused taken).2

/-- The books after a move of the client. -/
theorem Accounts.client (accounts : Accounts d s user e)
    (taken : (s.clients user).step e move = some c)
    (new : ∀ id, move = .draw (some id) → s.isNew id = true)
    (answered : ∀ response, move = .reply (some response) → ∃ query rest,
      (s.clients user).program = .ask query rest ∧ s.mayAnswer user query response = true)
    (runs : d.engine user = some e)
    (apart : ReceiptsApart d { s.setClient user c with drawn := System.drawnBy user move ++ s.drawn }) :
    Accounts d { s.setClient user c with drawn := System.drawnBy user move ++ s.drawn } user e := by
  obtain ⟨fresh, governed, pool⟩ := accounts.governed
  have now : (s.setClient user c).clients user = c := Function.update_self _ _ _
  have receipts := apart user e runs
  simp only [now] at receipts
  have unused := accounts.unused runs taken new apart
  obtain ⟨governed', moves⟩ := governed_step governed unused taken
  have pool' : ∀ id, fresh id → (user, id) ∈ System.drawnBy user move ++ s.drawn :=
    fun id old => List.mem_append_right _ (pool id old).1
  refine ⟨⟨freshAfter Uses fresh move c, ?_, fun id left => ?_⟩, ?_, ?_, ?_, accounts.unique, ?_,
    accounts.journal, ?_⟩
  · rw [now]
    exact governed'
  · rcases left.1 with old | rfl
    · exact ⟨pool' id old, (pool id old).2⟩
    · refine ⟨List.mem_cons_self, fun request sent => ?_⟩
      exact absurd sent (isNew_unsent (new id rfl))
  · rw [now]
    intro id request carries
    rcases carries_made moves carries with old | drawn | receipt
    · exact (accounts.entries id request old).imp_right (List.mem_append_right _)
    · exact .inr (pool' id drawn)
    · exact .inl receipt
  · rw [now]
    intro row planned
    rcases moves with same | commits
    · rw [same] at planned
      exact List.mem_append_right _ (accounts.intents row planned)
    obtain ⟨next, added, evolution⟩ := intents_evolve accounts.sound.linked commits
    rcases evolution.origin planned with ⟨old, held, -, evolves⟩ | inserted
    · rw [evolves.same.1]
      exact List.mem_append_right _ (accounts.intents old held)
    · exact pool' row.id (evolution.fresh row inserted).1
  · intro id request sent durable
    exact (accounts.posted id request sent durable).imp_right (List.mem_append_right _)
  · rw [now]
    intro id request other carries sent durable
    rcases carries_made moves carries with old | drawn | receipt
    · exact accounts.current id request other old sent durable
    · rw [(pool id drawn).2 other sent] at durable
      cases durable
    · cases request with
      | acknowledge events welcomes => exact (receipts id events welcomes carries).2 other sent durable
      | _ => cases receipt
  · rw [now]
    rintro query response (replied | known)
    · exact accounts.told query response (.inl replied)
    rcases step_known taken known with old | ⟨rfl, rest, asking⟩
    · exact accounts.told query response (.inr old)
    obtain ⟨query', rest', asking', may⟩ := answered response rfl
    rw [asking] at asking'
    cases asking'
    have told := told_of_answer accounts may
    exact told

/-- The books after a request of the client is on its way. -/
theorem Accounts.post {rest : Option Response → Program mls Unit}
    (accounts : Accounts d s user e) (asking : (s.clients user).program = .ask query rest) :
    Accounts d { s with sent := (user, query) :: s.sent } user e := by
  obtain ⟨fresh, governed, pool⟩ := accounts.governed
  obtain ⟨asked, asks⟩ := query
  have linked := accounts.sound.linked
  have carried : asks.isRead = false → Carries (s.clients user).store asked asks := by
    intro durable
    rcases governed.sends asking with entry | read
    · exact linked.carries_of_entry entry
    · rw [durable] at read
      cases read
  refine ⟨⟨fresh, governed, fun id new => ⟨(pool id new).1, fun request sent => ?_⟩⟩,
    accounts.entries, accounts.intents, ?_, ?_, ?_, ?_, accounts.told⟩
  · rcases List.mem_cons.mp sent with same | old
    · cases same
      cases read : asks.isRead with
      | true => rfl
      | false =>
        obtain ⟨row, present, named, -⟩ := carried read
        exact absurd (.inl ⟨row, present, named⟩) (governed.unused asked new)
    · exact (pool id new).2 request old
  · intro id request sent durable
    rcases List.mem_cons.mp sent with same | old
    · cases same
      exact accounts.entries asked asks (carried durable)
    · exact accounts.posted id request old durable
  · intro id request other first second durable lasting
    rcases List.mem_cons.mp first with same | old
    · cases same
      rcases List.mem_cons.mp second with same | older
      · cases same
        rfl
      · exact (accounts.current asked asks other (carried durable) older lasting).symm
    · rcases List.mem_cons.mp second with same | older
      · cases same
        exact accounts.current asked asks request (carried lasting) old durable
      · exact accounts.unique id request other old older durable lasting
  · intro id request other carries sent durable
    rcases List.mem_cons.mp sent with same | old
    · cases same
      exact linked.carried_once (carried durable) carries
    · exact accounts.current id request other carries old durable
  · intro id row saved
    obtain ⟨request, response, sent, booked⟩ := accounts.journal id row saved
    exact ⟨request, response, List.mem_cons_of_mem _ sent, booked⟩

end Client

section Relay

variable {here : Relay.Storage.Surroundings} {caller : UserId} {id : MessageId} {request : Request}

theorem booked_of_journals {final : Db} (valid : Valid sha256 db)
    (answer : deliver sha256 here db caller id request = (.ok response, final))
    (journals : Relay.Steps.Journals sha256 db caller id request response final) :
    Booked sha256 final caller id request response := by
  obtain ⟨_, _, _, _, _, -, -, writes, -⟩ := journals.witness
  refine ⟨?_, journals.durable, journals.settles, fits_of_writes valid journals.durable writes⟩
  have saved := Relay.Idempotence.saved_of_settled valid journals.durable
    (congrArg Prod.fst answer) journals.settles fun row saved => by
      rw [journals.unused] at saved
      cases saved
  rw [answer] at saved
  exact saved

theorem savedRequest_of_delivers {db final : Db}
    {answer : Except Relay.Storage.StorageError Response}
    (delivers : Relay.Steps.Delivers sha256 db caller id request answer final) {named : MessageId}
    {row : RequestRow} (saved : final.savedRequest other named = some row) :
    db.savedRequest other named = some row ∨ other = caller ∧ named = id ∧
      ∃ response, answer = .ok response ∧
        Relay.Steps.Journals sha256 db caller id request response final := by
  cases delivers with
  | @settled response _ journals =>
    have record := journals
    obtain ⟨wire, bytes, next, sender, room, -, -, writes, rfl⟩ := journals.witness
    have same := Relay.Steps.Writes.requests_eq writes
    unfold Db.savedRequest at saved ⊢
    rw [List.find?_append, same] at saved
    rcases Option.or_eq_some_iff.mp saved with old | ⟨-, last⟩
    · exact .inl old
    obtain ⟨matching, -⟩ := List.find?_eq_some_iff_append.mp last
    have found := List.mem_of_find?_eq_some last
    obtain rfl := List.mem_singleton.mp found
    obtain ⟨rfl, rfl⟩ := of_decide_eq_true matching
    exact .inr ⟨rfl, rfl, response, rfl, record⟩
  | _ => exact .inl saved

theorem told_of_unsettled {reason : Rejection}
    (remains : ¬Relay.Steps.Settles request (.rejected reason)) :
    Told sha256 db caller id request (.rejected reason) := by
  by_cases receipt : request.isAcknowledge = true
  · exact .receipt receipt
  refine .transient ?_
  have passing : Relay.Deliver.isTransient (.rejected reason) = true := by
    by_contra lasting
    exact remains ⟨by simpa using lasting, fun acknowledge => absurd acknowledge receipt⟩
  cases reason with
  | quota | overloaded | internal => rfl
  | _ => cases passing

/-- The answer to a request of the client whose identifier serves no other durable request. -/
theorem Accounts.answer (accounts : Accounts d s caller e) (valid : Valid d.sha256 s.relay)
    (own : ∀ other, (caller, id, other) ∈ s.sent → other.isRead = false →
      request.isRead = false → other = request)
    (answer : (deliver d.sha256 here s.relay caller id request).1 = .ok response) :
    Told d.sha256 (deliver d.sha256 here s.relay caller id request).2 caller id request response := by
  have grown := Relay.Log.extends_deliver d.sha256 here s.relay caller id request
  -- A read shows what it finds; under an identifier that is taken it gets no page.
  by_cases read : request.isRead = true
  · exact .page read ((shows_of_answer valid read answer).mono grown)
  have durable : request.isRead = false := by simpa using read
  have delivers := Relay.Steps.deliver_delivers d.sha256 here s.relay caller id request
  have both : deliver d.sha256 here s.relay caller id request =
      (.ok response, (deliver d.sha256 here s.relay caller id request).2) := Prod.ext answer rfl
  rw [answer] at delivers
  generalize (deliver d.sha256 here s.relay caller id request).2 = final at *
  have owned : ∀ row, s.relay.savedRequest caller id = some row → ∃ response,
      Booked d.sha256 s.relay caller id request response := by
    intro row saved
    obtain ⟨other, response, earlier, booked⟩ := accounts.journal id row saved
    obtain rfl := own other earlier booked.durable durable
    exact ⟨response, booked⟩
  cases delivers with
  | @conflicting wire row encoded saved other =>
    obtain ⟨response, booked⟩ := owned row saved
    obtain ⟨found, bytes, holds, encodes, hash, -⟩ := booked.saved
    rw [saved] at holds
    obtain rfl := Option.some.inj holds
    rw [encoded] at encodes
    obtain rfl := Except.ok.inj encodes
    exact absurd hash other
  | @replayed wire row _ encoded saved same decoded =>
    obtain ⟨journaled, booked⟩ := owned row saved
    obtain rfl := saved_unique booked.saved ⟨row, wire, saved, encoded, same, decoded⟩
    exact .booked booked
  | @unsettled reason _ _ remains => exact told_of_unsettled remains
  | answered read' _ _ => exact absurd read' read
  | settled journals => exact .booked (booked_of_journals valid both journals)

theorem Accounts.execute (accounts : Accounts d s user e) (valid : Valid d.sha256 s.relay)
    (runs : d.engine user = some e) (may : s.mayExecute d caller id request = true)
    (answer : (deliver d.sha256 here s.relay caller id request).1 = .ok response) :
    Accounts d { s with
      relay := (deliver d.sha256 here s.relay caller id request).2
      replies := (caller, (id, request), response) :: s.replies } user e := by
  have grown := Relay.Log.extends_deliver d.sha256 here s.relay caller id request
  have sent : caller = user → (user, id, request) ∈ s.sent := by
    rintro rfl
    unfold System.mayExecute at may
    rw [if_pos (by rw [runs]; rfl)] at may
    exact of_decide_eq_true may
  refine ⟨accounts.governed, accounts.entries, accounts.intents, accounts.posted, accounts.unique,
    accounts.current, ?_, ?_⟩
  · intro named row saved
    have delivers := Relay.Steps.deliver_delivers d.sha256 here s.relay caller id request
    rcases savedRequest_of_delivers delivers saved with old | ⟨rfl, rfl, journaled, settled, journals⟩
    · obtain ⟨asked, given, posted, booked⟩ := accounts.journal named row old
      exact ⟨asked, given, posted, booked.mono grown⟩
    · exact ⟨request, journaled, sent rfl, booked_of_journals valid (Prod.ext settled rfl) journals⟩
  · rintro query given (replied | known)
    · rcases List.mem_cons.mp replied with same | old
      · cases same
        exact accounts.answer valid
          (fun other posted lasting => accounts.unique id other request posted (sent rfl) lasting) answer
      · exact (accounts.told query given (.inl old)).mono grown
    · exact (accounts.told query given (.inr known)).mono grown

theorem deliver_failed {error : Relay.Storage.StorageError}
    (failed : (deliver sha256 here db caller id request).1 = .error error) :
    (deliver sha256 here db caller id request).2 = db :=
  Relay.Idempotence.unchanged_of_unsettled fun response answer => by
    rw [failed] at answer
    cases answer

theorem booked_of_event {row : EventRow}
    (answer : (deliver sha256 here db caller id request).1 = .ok response)
    (logged : row ∈ (deliver sha256 here db caller id request).2.deliveryEvents)
    (new : row ∉ db.deliveryEvents) (valid : Valid sha256 db) :
    Booked sha256 (deliver sha256 here db caller id request).2 caller id request response := by
  have delivers := Relay.Steps.deliver_delivers sha256 here db caller id request
  have both : deliver sha256 here db caller id request =
      (.ok response, (deliver sha256 here db caller id request).2) := Prod.ext answer rfl
  rw [answer] at delivers
  generalize (deliver sha256 here db caller id request).2 = final at *
  cases delivers with
  | settled journals => exact booked_of_journals valid both journals
  | _ => exact absurd logged new

theorem Joint.owned_execute (joint : Joint d s) (may : s.mayExecute d caller id request = true) :
    ∀ user named, (user, named) ∈ s.drawn →
      ∀ row ∈ (deliver d.sha256 here s.relay caller id request).2.deliveryEvents,
        row.eventId = named → row.sender = user := by
  intro user named drawn row logged same
  by_cases old : row ∈ s.relay.deliveryEvents
  · exact joint.owned user named drawn row old same
  obtain ⟨sender, event, -, e, accepted, holds⟩ := Relay.Membership.new_event logged old
  subst same
  rw [event] at drawn
  have grown := (Relay.Log.extends_deliver d.sha256 here s.relay caller id request).events
  have after := (joint.valid.deliver here caller id request).log
  unfold System.mayExecute at may
  split at may
  · rename_i client
    obtain ⟨engine, runs⟩ := Option.isSome_iff_exists.mp client
    have accounts := joint.accounts caller engine runs
    have booked := booked_of_event accepted logged old joint.valid
    have posted : (caller, id) ∈ s.drawn := by
      cases booked.fits with
      | accepted =>
        rcases accounts.posted id _ (of_decide_eq_true may) rfl with receipt | drawn
        · cases receipt
        · exact drawn
    rw [sender]
    exact congrArg Prod.fst (List.inj_on_of_nodup_map joint.once posted drawn rfl)
  · rcases Bool.or_eq_true_iff.mp may with apart | known
    · exact absurd rfl (of_decide_eq_true (List.all_eq_true.mp apart _ drawn))
    · obtain ⟨other, present, named⟩ := List.any_eq_true.mp known
      have equal : row = other := after.row_of_id logged (grown.subset present)
        (event.trans (of_decide_eq_true named).symm)
      exact absurd (equal ▸ present) old

theorem joint_start : Joint d (System.start mls) := by
  refine ⟨Valid.empty _, Members.empty, List.nodup_nil, nofun, fun user e _ => ?_⟩
  have unsent : ∀ id request, ¬Carries (Store.empty mls) id request := by
    rintro id request ⟨row, present, -⟩
    cases present
  refine ⟨⟨fun _ => False, governed_off _ nofun, nofun⟩, ?_, nofun, nofun, nofun, ?_, nofun, ?_⟩
  · exact fun id request carries => absurd carries (unsent id request)
  · exact fun id request _ carries => absurd carries (unsent id request)
  · rintro query response (replied | known)
    · cases replied
    · cases known

/-- Every action keeps the books. -/
theorem Joint.step (joint : Joint d s) (steps : Steps d s t) (apart : ReceiptsApart d t) :
    Joint d t := by
  cases steps with
  | @client user e move c runs taken new answered =>
    refine ⟨joint.valid, joint.members, ?_, ?_, fun other engine runs' => ?_⟩
    · rcases drawnBy_cases user move with none | ⟨id, drawing, one⟩
      · rw [none]
        exact joint.once
      · rw [one]
        refine List.nodup_cons.mpr ⟨fun drawn => ?_, joint.once⟩
        obtain ⟨⟨owner, _⟩, earlier, rfl⟩ := List.mem_map.mp drawn
        exact isNew_undrawn (new _ drawing) earlier
    · intro owner id drawn row logged same
      rcases List.mem_append.mp drawn with latest | earlier
      · obtain ⟨rfl, drawing⟩ := drawing_of_mem latest
        have unlogged := isNew_unlogged (new id drawing)
        exact absurd (decide_eq_true same) (List.any_eq_false.mp unlogged row logged)
      · exact joint.owned owner id earlier row logged same
    · by_cases same : other = user
      · subst same
        rw [runs] at runs'
        obtain rfl := Option.some.inj runs'
        exact (joint.accounts _ _ runs).client taken new answered runs apart
      · refine (joint.accounts other engine runs').elsewhere ?_ (List.subset_append_right _ _)
          (fun _ => Iff.rfl) rfl rfl
        exact Function.update_of_ne same _ _
  | @post user e query rest runs asking =>
    refine ⟨joint.valid, joint.members, joint.once, joint.owned, fun other engine runs' => ?_⟩
    by_cases same : other = user
    · subst same
      exact (joint.accounts _ _ runs').post asking
    · refine (joint.accounts other engine runs').elsewhere rfl (List.Subset.refl _) (fun query => ?_)
        rfl rfl
      rw [List.mem_cons, or_iff_right fun equal => same (congrArg Prod.fst equal)]
  | fail may failed =>
    rw [deliver_failed failed]
    exact joint
  | execute may answer =>
    exact ⟨joint.valid.deliver _ _ _ _, joint.members.deliver joint.valid _ _ _ _, joint.once,
      joint.owned_execute may, fun user e runs =>
        (joint.accounts user e runs).execute joint.valid runs may answer⟩

theorem joint_run {past : List (System mls)} (run : Run d s past) : Joint d s := by
  induction run with
  | start => exact joint_start
  | step _ taken apart ih => exact ih.step (step_steps taken) apart

theorem store_run {holds : Store mls → Prop} {past : List (System mls)} (run : Run d s past)
    (runs : d.engine user = some e) (empty : holds (Store.empty mls))
    (kept : ∀ (s : System mls) (past : List (System mls)) (fresh : MessageId → Prop) (after : Store mls),
      Run d s past → holds (s.clients user).store →
      (∀ id, fresh id → (user, id) ∈ s.drawn ∧ (¬Uses (s.clients user).store id) ∧
        ∀ request, (user, id, request) ∈ s.sent → request.isRead = true) →
      Commits e (s.clients user).asked (s.clients user).known fresh (s.clients user).store after →
      holds after) : holds (s.clients user).store := by
  induction run with
  | start => exact empty
  | @step s t past action before taken apart ih =>
    cases step_steps taken with
    | @client mover engine move c runs' taken new answered =>
      by_cases same : mover = user
      · subst same
        rw [runs] at runs'
        obtain rfl := Option.some.inj runs'
        have now : (s.setClient mover c).clients mover = c := Function.update_self _ _ _
        obtain ⟨fresh, pool, moves⟩ :=
          ((joint_run before).accounts mover e runs).moves runs taken new apart
        rw [now]
        rcases moves with unchanged | commits
        · rw [unchanged]
          exact ih
        · exact kept s past fresh c.store before ih pool commits
      · have other : (s.setClient mover c).clients user = s.clients user :=
          Function.update_of_ne (Ne.symm same) _ _
        rw [other]
        exact ih
    | post _ _ => exact ih
    | fail _ _ => exact ih
    | execute _ _ => exact ih

end Relay

end Accounts

end Grotto.Network.Ledger
