/- GID: Grotto/Network/Mirror
   digest: What clients hold of the log is in the log, and the relay answers what they expect. -/

import Grotto.Client.Arrivals
import Grotto.Network.Ledger

set_option autoImplicit false

namespace Grotto.Network.Mirror

open Protocol.Records Protocol.Wire Protocol.Transcripts Protocol.Sizes
open Client.Library Client.Tables Client.Delivery Client.Changes
open Client.Frames Client.Machine
open Client.Outbox Client.Arrivals
open Model Ledger
open Relay.Storage (Db)
open Relay.Log (Extends)

variable {mls : Mls}

section Mirrors

variable {db next : Db} {welcome : WelcomeDelivery}

structure Logged (db : Db) (user : UserId) (event : Event) : Prop where
  row : ∃ row ∈ db.deliveryEvents, Relay.Invariant.Holds row event
  subscribed : db.isSubscribed event.operation.room user = true

def Invited (db : Db) (user : UserId) (welcome : WelcomeDelivery) : Prop :=
  ∃ row ∈ db.deliveryWelcomes, row.recipient = user ∧ Relay.Recovery.DeliversWelcome row welcome

inductive Receipt (db : Db) (user : UserId) : List MessageId → List UInt64 → Prop
  | event {event : Event} (logged : Logged db user event) : Receipt db user [event.id] []
  | welcome {welcome : WelcomeDelivery} (invited : Invited db user welcome) :
      Receipt db user [] [UInt64.ofNat welcome.cursor.toNat]

structure Mirrors (d : Deployment mls) (s : System mls) (user : UserId) : Prop where
  inbox : ∀ row ∈ (s.clients user).store.deliveryInbox, ∃ event, Logged s.relay user event ∧
    encodeMessage event = .ok row.record ∧ row = rowOf event row.record row.state
  welcomes : ∀ row ∈ (s.clients user).store.welcomeInbox, ∃ welcome, Invited s.relay user welcome ∧
    encodeMessage welcome = .ok row.record ∧ row.cursor = welcome.cursor.toNat
  durable : ∀ id request, Carries (s.clients user).store id request → request.isRead = false
  receipts : ∀ id events welcomes,
    Carries (s.clients user).store id (.acknowledge events welcomes) →
      id = acknowledgementId d.sha256 user events welcomes ∧ Receipt s.relay user events welcomes

variable {d : Deployment mls} {s t : System mls} {user : UserId} {e : Engine mls}

theorem Logged.mono {event : Event} (logged : Logged db user event)
    (grown : Extends db next) : Logged next user event := by
  obtain ⟨row, present, holds⟩ := logged.row
  exact ⟨⟨row, grown.events.subset present, holds⟩, isSubscribed_mono grown logged.subscribed⟩

theorem Invited.mono (invited : Invited db user welcome)
    (grown : Extends db next) : Invited next user welcome := by
  obtain ⟨row, present, rest⟩ := invited
  exact ⟨row, grown.welcomes.subset present, rest⟩

theorem Receipt.mono {events : List MessageId} {welcomes : List UInt64}
    (receipt : Receipt db user events welcomes) (grown : Extends db next) :
    Receipt next user events welcomes := by
  cases receipt with
  | event logged => exact .event (logged.mono grown)
  | welcome invited => exact .welcome (invited.mono grown)

theorem Mirrors.mono (mirrors : Mirrors d s user)
    (clients : (t.clients user).store = (s.clients user).store)
    (grown : Extends s.relay t.relay) : Mirrors d t user where
  inbox := by
    rw [clients]
    intro row listed
    obtain ⟨event, logged, rest⟩ := mirrors.inbox row listed
    exact ⟨event, logged.mono grown, rest⟩
  welcomes := by
    rw [clients]
    intro row listed
    obtain ⟨welcome, invited, rest⟩ := mirrors.welcomes row listed
    exact ⟨welcome, invited.mono grown, rest⟩
  durable := by
    rw [clients]
    exact mirrors.durable
  receipts := by
    rw [clients]
    intro id events welcomes carries
    obtain ⟨named, receipt⟩ := mirrors.receipts id events welcomes carries
    exact ⟨named, receipt.mono grown⟩

theorem logged_of_arrives (joint : Joint d s) (runs : d.engine user = some e) {event : Event}
    (arrives : Arrives e (s.clients user).known (s.clients user).store event) :
    Logged s.relay user event := by
  have accounts := joint.accounts user e runs
  cases arrives with
  | accepted mine _ answer =>
    have told := accounts.told _ _ (.inr answer)
    cases told with
    | booked booked =>
      obtain ⟨row, wire, saved, -, -, decoded⟩ := booked.saved
      obtain ⟨present, owner, -⟩ := Relay.Invariant.savedRequest_some saved
      obtain ⟨request, response, result⟩ := joint.valid.journal.results row present
      have same := result.decoded
      rw [decoded] at same
      obtain ⟨-, -, -, log, logged, holds⟩ := result.recorded event (Except.ok.inj same).symm
      refine ⟨⟨log, logged, holds⟩, ?_⟩
      have sender := joint.members.senders log logged
      rw [← holds.room, ← holds.sender, mine, d.named user e runs] at sender
      exact Relay.Invariant.isSubscribed_iff.mpr sender
    | page read _ => cases read
  | fetched _ answer listed =>
    have told := accounts.told _ _ (.inr answer)
    cases told with
    | booked booked => cases booked.durable
    | page _ shows =>
      obtain ⟨subscribed, rows⟩ := shows.events _ _ _ _ rfl rfl
      obtain ⟨row, logged, holds, -⟩ := rows event listed
      exact ⟨⟨row, logged, holds⟩, subscribed⟩

theorem invited_of_page (joint : Joint d s) (runs : d.engine user = some e) {query : MessageId}
    {start : UInt64} {page : List WelcomeDelivery} {more : Bool}
    (answer : (s.clients user).known (query, .fetchWelcomes start) (.welcomes start page more))
    (listed : welcome ∈ page) : Invited s.relay user welcome := by
  have told := (joint.accounts user e runs).told _ _ (.inr answer)
  cases told with
  | booked booked => cases booked.durable
  | page _ shows => exact shows.welcomes start page more rfl rfl welcome listed

theorem builds_durable {store next : Store mls} {row : IntentRow} {id : MessageId} {parent : Nat}
    {request : Request} (builds : Builds e store row id parent request next) :
    request.isRead = false ∧ request.isAcknowledge = false := by
  cases builds with
  | reservation _ _ => exact ⟨rfl, rfl⟩
  | addition _ _ _ => exact ⟨rfl, rfl⟩
  | message _ _ _ _ _ => exact ⟨rfl, rfl⟩

theorem orders_durable {order : UserCommand} {request : Request} (orders : Orders order request) :
    request.isRead = false ∧ request.isAcknowledge = false := by
  cases orders with
  | createRoom _ => exact ⟨rfl, rfl⟩
  | publish _ _ => exact ⟨rfl, rfl⟩
  | grant _ _ => exact ⟨rfl, rfl⟩

/-- Every durable change keeps the tables about the log. -/
theorem Mirrors.commits (mirrors : Mirrors d s user) (joint : Joint d s)
    (runs : d.engine user = some e) {fresh : MessageId → Prop} {c : Process mls}
    (commits : Commits e (s.clients user).asked (s.clients user).known fresh (s.clients user).store
      c.store) (clients : t.clients user = c) (relay : t.relay = s.relay) : Mirrors d t user := by
  have held : ∀ row ∈ (s.clients user).store.deliveryInbox, ∀ event,
      encodeMessage event = .ok row.record → Logged s.relay user event := by
    intro row listed event encodes
    obtain ⟨found, logged, read, -⟩ := mirrors.inbox row listed
    rw [event_eq_of_encode encodes read]
    exact logged
  refine ⟨?_, ?_, ?_, ?_⟩
  · rw [clients, relay]
    intro row listed
    rcases inbox_origin commits listed with ⟨state, old⟩ | ⟨event, bytes, encodes, rfl, -, arrives⟩
    · obtain ⟨event, logged, encodes, shape⟩ := mirrors.inbox _ old
      refine ⟨event, logged, encodes, ?_⟩
      exact congrArg (fun found : InboxRow => { found with state := row.state }) shape
    · exact ⟨event, logged_of_arrives joint runs arrives, encodes, rfl⟩
  · rw [clients, relay]
    intro row listed
    rcases welcomes_origin commits row listed with
      ⟨state, old⟩ | ⟨query, start, page, more, welcome, answer, inside, encodes, place, -, -⟩
    · obtain ⟨welcome, rest⟩ := mirrors.welcomes _ old
      exact ⟨welcome, rest⟩
    · exact ⟨welcome, invited_of_page joint runs answer inside, encodes, place⟩
  · rw [clients]
    intro id request carries
    rcases carries_origin commits carries with old | originates
    · exact mirrors.durable id request old
    cases originates with
    | command _ orders _ => exact (orders_durable orders).1
    | attempt _ _ _ _ builds _ _ => exact (builds_durable builds).1
    | settled _ _ => rfl
    | joined _ _ => rfl
  · rw [clients, relay]
    intro id events welcomes carries
    have names := d.named user e runs
    have hashes := d.hashes user e runs
    rcases carries_origin commits carries with old | originates
    · exact mirrors.receipts id events welcomes old
    generalize asks : Request.acknowledge events welcomes = request at originates
    cases originates with
    | command _ orders _ =>
      subst asks
      cases (orders_durable orders).2
    | attempt _ _ _ _ builds _ _ =>
      subst asks
      cases (builds_durable builds).2
    | @settled event named ready =>
      cases asks
      obtain ⟨bytes, state, encodes, place⟩ := ready.held
      rw [names, hashes] at named
      exact ⟨named, .event (held _ place event encodes)⟩
    | @joined row pending named =>
      cases asks
      obtain ⟨welcome, invited, -, place⟩ := mirrors.welcomes row pending
      rw [names, hashes] at named
      rw [place] at named ⊢
      exact ⟨named, .welcome invited⟩

theorem Mirrors.step (mirrors : Mirrors d s user) (joint : Joint d s) (runs : d.engine user = some e)
    (steps : Steps d s t) (apart : ReceiptsApart d t) : Mirrors d t user := by
  cases steps with
  | @client mover engine move c runs' taken new answered =>
    by_cases same : user = mover
    · subst same
      rw [runs] at runs'
      obtain rfl := Option.some.inj runs'
      have now : (s.setClient user c).clients user = c := Function.update_self _ _ _
      obtain ⟨fresh, -, moves⟩ := (joint.accounts user e runs).moves runs taken new apart
      rcases moves with kept | commits
      · exact mirrors.mono ((congrArg Process.store now).trans kept) (Extends.refl _)
      · exact mirrors.commits joint runs commits now rfl
    · exact mirrors.mono (congrArg _ (Function.update_of_ne same _ _)) (Extends.refl _)
  | post _ _ => exact mirrors.mono rfl (Extends.refl _)
  | fail _ _ => exact mirrors.mono rfl (Relay.Log.extends_deliver _ _ _ _ _ _)
  | execute _ _ => exact mirrors.mono rfl (Relay.Log.extends_deliver _ _ _ _ _ _)

theorem mirrors_run {past : List (System mls)} (run : Run d s past) (runs : d.engine user = some e) :
    Mirrors d s user := by
  induction run with
  | start =>
    refine ⟨nofun, nofun, ?_, ?_⟩
    · rintro id request ⟨row, present, -⟩
      cases present
    · rintro id events welcomes ⟨row, present, -⟩
      cases present
  | step before taken apart ih => exact ih.step (joint_run before) runs (step_steps taken) apart

end Mirrors

end Grotto.Network.Mirror
