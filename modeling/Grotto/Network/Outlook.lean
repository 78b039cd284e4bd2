/- GID: Grotto/Network/Outlook
   digest: What a client will know of the rooms when the messages under way have reached it. -/

import Grotto.Network.Live
import Grotto.Relay.Heads

set_option autoImplicit false

namespace Grotto.Network.Outlook

open Protocol.Records
open Base.Progress
open Client.Library Client.Delivery Client.Passes
open Relay.Storage (Db)
open Relay.Deliver (deliver)
open Relay.Invariant (Valid)
open Relay.Log (Extends extends_deliver)
open Relay.Heads Relay.Hub
open Live

variable {mls : Mls}

section Outlook

def answerIn : RelayMessage → Option Response
  | .delivery _ response => some response
  | _ => none

variable (e : Engine mls) (s : Line mls)

def coming : Option Response :=
  (s.session.map Reply.response).or (s.downstream.findSome? answerIn)

def reaches (g : Reach) : Reach :=
  match s.awaited, coming s with
  | some query, some response => learn g query response
  | _, _ => g

def knows : RoomId → Nat :=
  match s.awaited, coming s with
  | some query, some response => take s.fetched query response
  | _, _ => s.fetched

def queued : Bool := (s.hub.channel e.user s.connection).any fun channel => !channel.queue.isEmpty

def Signalled : Prop := queued e s = true ∨ .deliveryChanged ∈ s.downstream

def Owes : Prop := 0 < s.owed ∨ ∃ reply, s.session = some reply ∧ reply.announces = true

/-- `Wire::request` takes a notification from the channel and throws it away. -/
def discards : Action mls → Bool
  | .read _ => s.awaited.isSome && decide (s.downstream.head? = some .deliveryChanged)
  | _ => false

/-- A notification is thrown away only if another one follows, or if the rooms that the pass has
read in the index, the page on its way included, still have the heads that were read. -/
def Heeds (action : Action mls) : Prop :=
  discards s action = true →
    (queued e s = true ∨ .deliveryChanged ∈ s.downstream.tail) ∨
      ∀ room, s.relay.isSubscribed room e.user = true → upTo (some room) ≤ reaches s s.pass →
        s.relay.head room ≤ knows s room

end Outlook

section Invariant

variable (e : Engine mls) (s : Line mls)

def notices (messages : List RelayMessage) : Prop := ∀ m ∈ messages, m = .deliveryChanged

inductive Flow : Option (MessageId × Request) → Prop
  | still (upstream : s.upstream = []) (session : s.session = none) (rest : notices s.downstream) :
      Flow none
  | sent {query : MessageId × Request} (upstream : s.upstream = [query]) (session : s.session = none)
      (rest : notices s.downstream) : Flow (some query)
  | held {query : MessageId × Request} {reply : Reply} (upstream : s.upstream = [])
      (session : s.session = some reply) (own : reply.id = query.1) (rest : notices s.downstream) :
      Flow (some query)
  | answered {query : MessageId × Request} {response : Response} {first last : List RelayMessage}
      (upstream : s.upstream = []) (session : s.session = none)
      (downstream : s.downstream = first ++ .delivery query.1 response :: last)
      (before : notices first) (after : notices last) : Flow (some query)

/-- The registration of the client: at most one notification waits in its channel. -/
structure Connected : Prop where
  active : e.user ∈ s.hub.activeIdentities
  channel : s.hub.channel e.user s.connection = some ⟨[], false⟩ ∨
    s.hub.channel e.user s.connection = some ⟨[.deliveryChanged], false⟩

/-- What the client knows of the relay as it was at a mark, no earlier than the last notification. -/
structure Kept (mark : Db) (g : Reach) : Prop where
  valid : Valid e.crypto.sha256 mark
  past : Extends mark s.relay
  since : ∀ db, s.noticed = some db → Valid e.crypto.sha256 db ∧ Extends db mark
  owing : Signalled e s ∨ Owes s ∨ ∀ room, s.relay.isSubscribed room e.user = true →
    s.relay.head room = 0 ∨
      mark.isSubscribed room e.user = true ∧ s.relay.head room = mark.head room
  told : Signalled e s ∨ ∀ room, mark.isSubscribed room e.user = true →
    upTo (some room) ≤ reaches s g → mark.head room ≤ knows s room

def Stance (g : Reach) : Prop :=
  match s.phase with
  | .away => True
  | .idle | .commanding => g = ⊤
  | .driving | .awaiting =>
    Asks Planned s.client.program ∧ Covers s.client.program s.pass ∧ Covers s.client.program g

def isLive : Bool :=
  match s.phase, s.client.program with
  | .away, _ => false
  | .driving, .done (.error _) => false
  | .awaiting, .ask _ _ => true
  | .awaiting, _ => false
  | _, _ => true

structure Attentive (mark : Db) (g : Reach) : Prop where
  connected : Connected e s
  flow : Flow s s.awaited
  kept : Kept e s mark g
  stance : Stance s g

structure Inv : Prop where
  valid : Valid e.crypto.sha256 s.relay
  placed : Placed s.relay
  seen : ∀ db, s.noticed = some db → Valid e.crypto.sha256 db ∧ Extends db s.relay
  live : isLive s = true → ∃ mark g, Attentive e s mark g

end Invariant

variable {db : Db} {id : MessageId} {user : UserId} {here : Relay.Storage.Surroundings}
variable {query : MessageId × Request}

section Answers

variable {e : Engine mls} {mark : Db} {g : Reach} {rooms : List RoomHead}

theorem upTo_some_le {a b : RoomId} : upTo (some a) ≤ upTo (some b) ↔ a ≤ b := by
  unfold upTo
  rw [WithTop.coe_le_coe, WithBot.coe_le_coe]

theorem not_upTo_le_bot {room : RoomId} : ¬upTo (some room) ≤ ⊥ := by
  unfold upTo
  rw [← WithTop.coe_bot, WithTop.coe_le_coe, le_bot_iff]
  exact WithBot.coe_ne_bot

theorem page_or (query : MessageId × Request) (response : Response) :
    (∃ id after rooms more, query = (id, .syncIndex after) ∧ response = .syncIndex rooms more) ∨
      (∀ g, learn g query response = g) ∧ ∀ fetched, take fetched query response = fetched := by
  obtain ⟨id, request⟩ := query
  cases request with
  | syncIndex after =>
    cases response with
    | syncIndex rooms more => exact .inl ⟨id, after, rooms, more, rfl, rfl⟩
    | _ => exact .inr ⟨fun _ => rfl, fun _ => rfl⟩
  | _ => exact .inr ⟨fun _ => rfl, fun _ => rfl⟩

theorem answerOf_page {answer : Except Relay.Storage.StorageError Response}
    {more : Bool} (page : answerOf answer = .syncIndex rooms more) :
    answer = .ok (.syncIndex rooms more) := by
  cases answer with
  | ok response => exact congrArg Except.ok page
  | error error => cases page

theorem listed_of_learn {after : Option RoomId} {more : Bool}
    {room : RoomId} (lists : Lists db user after rooms more)
    (subscribed : db.isSubscribed room user = true)
    (within : upTo (some room) ≤ learn g (id, .syncIndex after) (.syncIndex rooms more)) :
    upTo (some room) ≤ g ∨ room ∈ rooms.map RoomHead.room := by
  rw [learn_page] at within
  split at within
  · rename_i placed
    by_cases before : upTo (some room) ≤ g
    · exact .inl before
    rcases le_max_iff.mp within with before | inside
    · exact .inl before
    refine .inr (lists.covers room subscribed ?_ ?_)
    · rintro start rfl
      have beyond := lt_of_le_of_lt placed (not_le.mp before)
      exact not_le.mp fun back => not_lt.mpr (upTo_some_le.mpr back) beyond
    · rintro last rfl final
      rw [if_pos rfl, final] at inside
      exact upTo_some_le.mp inside
  · exact .inl within

theorem told_answer {fetched : RoomId → Nat} (valid : Valid e.crypto.sha256 db)
    (marked : Valid e.crypto.sha256 mark) (past : Extends mark db)
    (told : ∀ room, mark.isSubscribed room e.user = true → upTo (some room) ≤ g →
      mark.head room ≤ fetched room) (room : RoomId)
    (subscribed : mark.isSubscribed room e.user = true)
    (within : upTo (some room) ≤
      learn g query (answerOf (deliver e.crypto.sha256 here db e.user query.1 query.2).1)) :
    mark.head room ≤
      take fetched query (answerOf (deliver e.crypto.sha256 here db e.user query.1 query.2).1) room := by
  rcases page_or query (answerOf (deliver e.crypto.sha256 here db e.user query.1 query.2).1) with
    ⟨id, after, rooms, more, rfl, page⟩ | ⟨same, kept⟩
  · rw [page] at within ⊢
    have lists := syncIndex_lists valid (answerOf_page page)
    dsimp only [take]
    cases found : rooms.find? fun h => decide (h.room = room) with
    | some h =>
      have own : h.room = room := by simpa using List.find?_some found
      dsimp only
      rw [lists.heads h (List.mem_of_find?_eq_some found), own]
      exact head_mono past marked valid room
    | none =>
      refine told room subscribed ?_
      refine (listed_of_learn lists (isSubscribed_mono past subscribed) within).resolve_right ?_
      intro listed
      obtain ⟨h, member, own⟩ := List.mem_map.mp listed
      have passed := List.find?_eq_none.mp found h member
      exact passed (decide_eq_true own)
  · rw [same] at within
    rw [kept]
    exact told room subscribed within

theorem findSome?_notices {messages : List RelayMessage} (rest : notices messages) :
    messages.findSome? answerIn = none := by
  refine List.findSome?_eq_none_iff.mpr fun m member => ?_
  rw [rest m member]
  rfl

end Answers

section Relay

variable {e : Engine mls} {s t : Line mls} {mark : Db} {g : Reach}

theorem outlook_still (rest : coming s = none) : reaches s g = g ∧ knows s = s.fetched := by
  unfold reaches knows
  rw [rest]
  cases s.awaited with
  | none => exact ⟨rfl, rfl⟩
  | some query => exact ⟨rfl, rfl⟩

theorem outlook_coming {response : Response} (waits : s.awaited = some query)
    (answer : coming s = some response) :
    reaches s g = learn g query response ∧ knows s = take s.fetched query response := by
  unfold reaches knows
  rw [waits, answer]
  exact ⟨rfl, rfl⟩

theorem outlook_rejected {reason : Rejection} (waits : s.awaited = some query)
    (answer : coming s = some (.rejected reason)) : reaches s g = g ∧ knows s = s.fetched := by
  obtain ⟨further, more⟩ := outlook_coming (g := g) waits answer
  rcases page_or query (.rejected reason) with ⟨_, _, _, _, _, page⟩ | ⟨same, kept⟩
  · cases page
  · exact ⟨further.trans (same g), more.trans (kept s.fetched)⟩

theorem outlook_congr (awaited : t.awaited = s.awaited) (answer : coming t = coming s)
    (fetched : t.fetched = s.fetched) : reaches t g = reaches s g ∧ knows t = knows s := by
  unfold reaches knows
  rw [awaited, answer, fetched]
  exact ⟨rfl, rfl⟩

theorem Kept.signal (kept : Kept e s mark g) (past : Extends s.relay t.relay)
    (noticed : t.noticed = s.noticed) (signalled : Signalled e t) : Kept e t mark g :=
  ⟨kept.valid, kept.past.trans past, noticed ▸ kept.since, .inl signalled, .inl signalled⟩

theorem Kept.carry (kept : Kept e s mark g) (relay : t.relay = s.relay)
    (noticed : t.noticed = s.noticed) (signalled : Signalled e s → Signalled e t)
    (owes : Owes s → Owes t) (outlook : reaches t g = reaches s g ∧ knows t = knows s) :
    Kept e t mark g := by
  refine ⟨kept.valid, relay ▸ kept.past, noticed ▸ kept.since, ?_, ?_⟩
  · rw [relay]
    exact kept.owing.imp signalled (Or.imp_left owes)
  · rw [outlook.1, outlook.2]
    exact kept.told.imp_left signalled

theorem owing_quiet (quiet : Quiet s.relay db e.user)
    (known : ∀ room, s.relay.isSubscribed room e.user = true → s.relay.head room = 0 ∨
      mark.isSubscribed room e.user = true ∧ s.relay.head room = mark.head room) (room : RoomId)
    (subscribed : db.isSubscribed room e.user = true) :
    db.head room = 0 ∨ mark.isSubscribed room e.user = true ∧ db.head room = mark.head room := by
  rcases quiet.subscribed room subscribed with before | new
  · rw [head_congr quiet.events]
    exact known room before
  · exact .inl new

theorem isAccepted_of {answer : Except Relay.Storage.StorageError Response}
    (refused : isAccepted (answerOf answer) = false) (event : Event) :
    answer ≠ .ok (.appendAccepted event) := by
  rintro rfl
  cases refused

theorem Owes.of_free (owes : Owes s) (free : s.session = none) : 0 < s.owed := by
  rcases owes with others | ⟨reply, own, -⟩
  · exact others
  · rw [free] at own
    cases own

theorem kept_executed {request : Request} (inv : Inv e s) (kept : Kept e s mark g)
    (free : s.session = none) (before : coming s = none) (waits : s.awaited = some (id, request)) :
    Kept e (s.executed e here id request) mark g := by
  have past := extends_deliver e.crypto.sha256 here s.relay e.user id request
  refine ⟨kept.valid, kept.past.trans past, kept.since, ?_, ?_⟩
  · cases accepted : isAccepted (answerOf (deliver e.crypto.sha256 here s.relay e.user id request).1) with
    | true => exact .inr (.inl (.inr ⟨_, rfl, accepted⟩))
    | false =>
      refine kept.owing.imp_right (Or.imp (fun owes => ?_) ?_)
      · exact .inl (owes.of_free free)
      · exact owing_quiet (quiet_deliver inv.placed (isAccepted_of accepted))
  · refine kept.told.imp_right fun told room subscribed within => ?_
    obtain ⟨reached, known⟩ := outlook_still (g := g) before
    rw [reached, known] at told
    obtain ⟨further, more⟩ := outlook_coming (g := g) (s := s.executed e here id request) waits rfl
    rw [further] at within
    rw [more]
    exact told_answer inv.valid kept.valid kept.past told room subscribed within

theorem coming_still (free : s.session = none) (rest : notices s.downstream) : coming s = none := by
  unfold coming
  rw [free, findSome?_notices rest]
  rfl

theorem Flow.next {rest : List (MessageId × Request)} (flow : Flow s s.awaited)
    (next : s.upstream = query :: rest) :
    s.awaited = some query ∧ rest = [] ∧ s.session = none ∧ notices s.downstream := by
  generalize s.awaited = awaited at flow
  cases flow with
  | sent upstream free quiet =>
    rw [next] at upstream
    obtain ⟨rfl, rfl⟩ := List.cons.inj upstream
    exact ⟨rfl, rfl, free, quiet⟩
  | still upstream => rw [next] at upstream; cases upstream
  | held upstream => rw [next] at upstream; cases upstream
  | answered upstream => rw [next] at upstream; cases upstream

theorem attends_handle (inv : Inv e s) (attends : Attentive e s mark g)
    (taken : s.handle e here = some t) : Attentive e t mark g := by
  dsimp only [Line.handle] at taken
  split at taken
  · rename_i id request rest _ next
    cases taken
    obtain ⟨waits, rfl, free, quiet⟩ := attends.flow.next next
    refine ⟨⟨attends.connected.active, attends.connected.channel⟩, ?_, ?_, attends.stance⟩
    · change Flow _ s.awaited
      rw [waits]
      exact .held (congrArg List.tail next) rfl rfl quiet
    · exact kept_executed inv attends.kept free (coming_still free quiet) waits
  · cases taken

theorem attends_refuse (attends : Attentive e s mark g) (taken : s.refuse = some t) :
    Attentive e t mark g := by
  dsimp only [Line.refuse] at taken
  split at taken
  · rename_i id request rest _ next
    cases taken
    obtain ⟨waits, rfl, free, quiet⟩ := attends.flow.next next
    refine ⟨⟨attends.connected.active, attends.connected.channel⟩, ?_, ?_, attends.stance⟩
    · change Flow _ s.awaited
      rw [waits]
      exact .held rfl rfl rfl quiet
    · refine attends.kept.carry rfl rfl (fun held => held) (fun owes => .inl (owes.of_free free)) ?_
      obtain ⟨reached, known⟩ := outlook_still (g := g) (coming_still free quiet)
      rw [reached, known]
      exact outlook_rejected waits rfl
  · cases taken

theorem Flow.congr {awaited : Option (MessageId × Request)} (flow : Flow s awaited)
    (upstream : t.upstream = s.upstream) (session : t.session = s.session)
    (downstream : t.downstream = s.downstream) : Flow t awaited := by
  cases flow with
  | still first free rest => exact .still (upstream.trans first) (session.trans free) (downstream ▸ rest)
  | sent first free rest => exact .sent (upstream.trans first) (session.trans free) (downstream ▸ rest)
  | held first held own rest =>
    exact .held (upstream.trans first) (session.trans held) own (downstream ▸ rest)
  | answered first free line before after =>
    exact .answered (upstream.trans first) (session.trans free) (downstream.trans line) before after

theorem queued_of_ringing
    (ringing : s.hub.channel e.user s.connection = some ⟨[.deliveryChanged], false⟩) :
    queued e s = true := by
  unfold queued
  rw [ringing]
  rfl

theorem connected_announce (connected : Connected e s) :
    s.hub.announce.channel e.user s.connection = some ⟨[.deliveryChanged], false⟩ := by
  rcases connected.channel with empty | ringing
  · exact ConnectionHub.channel_notify connected.active empty rfl
  · exact ConnectionHub.channel_notify connected.active ringing rfl

theorem attends_announce (attends : Attentive e s mark g) (taken : s.announce = some t) :
    Attentive e t mark g := by
  dsimp only [Line.announce] at taken
  split at taken
  · rename_i id response held
    cases taken
    have ringing := connected_announce attends.connected
    refine ⟨⟨attends.connected.active, .inr ringing⟩, ?_, ?_, attends.stance⟩
    · have flow := attends.flow
      change Flow _ s.awaited
      generalize s.awaited = awaited at flow ⊢
      cases flow with
      | still _ free => rw [held] at free; cases free
      | sent _ free => rw [held] at free; cases free
      | answered _ free => rw [held] at free; cases free
      | held upstream session own rest =>
        rw [held] at session
        cases session
        exact .held upstream rfl own rest
    · exact attends.kept.signal (Extends.refl _) rfl (.inl (queued_of_ringing ringing))
  · cases taken

theorem attends_otherAnnounce (attends : Attentive e s mark g) (taken : s.otherAnnounce = some t) :
    Attentive e t mark g := by
  dsimp only [Line.otherAnnounce] at taken
  split at taken
  · cases taken
  cases taken
  have ringing := connected_announce attends.connected
  refine ⟨⟨attends.connected.active, .inr ringing⟩, ?_, ?_, attends.stance⟩
  · exact attends.flow.congr rfl rfl rfl
  · exact attends.kept.signal (Extends.refl _) rfl (.inl (queued_of_ringing ringing))

theorem attends_respond (attends : Attentive e s mark g) (taken : s.respond = some t) :
    Attentive e t mark g := by
  dsimp only [Line.respond] at taken
  split at taken
  · rename_i id response held
    cases taken
    have flow := attends.flow
    generalize waits : s.awaited = awaited at flow
    cases flow with
    | still _ free => rw [held] at free; cases free
    | sent _ free => rw [held] at free; cases free
    | answered _ free => rw [held] at free; cases free
    | @held query _ upstream session own rest =>
      rw [held] at session
      cases session
      refine ⟨⟨attends.connected.active, attends.connected.channel⟩, ?_, ?_, attends.stance⟩
      · change Flow _ s.awaited
        rw [waits]
        have line : s.downstream ++ [.delivery id response] =
            s.downstream ++ .delivery query.1 response :: [] := by rw [← own]
        exact .answered upstream rfl line rest fun _ inside => absurd inside List.not_mem_nil
      · refine attends.kept.carry rfl rfl (Or.imp_right fun inside => List.mem_append_left _ inside)
          (fun owes => ?_) (outlook_congr rfl ?_ rfl)
        · rcases owes with others | ⟨reply, own, announces⟩
          · exact .inl others
          · rw [held] at own
            cases own
            cases announces
        · unfold coming
          rw [held, List.findSome?_append, findSome?_notices rest]
          rfl
  · cases taken

theorem notices_concat {messages : List RelayMessage} (rest : notices messages) :
    notices (messages ++ [.deliveryChanged]) := by
  intro m member
  rcases List.mem_append.mp member with old | new
  · exact rest m old
  · exact List.mem_singleton.mp new

theorem Flow.forward {awaited : Option (MessageId × Request)} (flow : Flow s awaited)
    (free : s.session = none) (upstream : t.upstream = s.upstream) (session : t.session = s.session)
    (downstream : t.downstream = s.downstream ++ [.deliveryChanged]) : Flow t awaited := by
  cases flow with
  | still first _ rest =>
    exact .still (upstream.trans first) (session.trans free) (downstream ▸ notices_concat rest)
  | sent first _ rest =>
    exact .sent (upstream.trans first) (session.trans free) (downstream ▸ notices_concat rest)
  | held _ held => rw [free] at held; cases held
  | answered first _ line before after =>
    rw [line, List.append_assoc, List.cons_append] at downstream
    exact .answered (upstream.trans first) (session.trans free) downstream before
      (notices_concat after)

theorem attends_forward (attends : Attentive e s mark g) (taken : s.forward e = some t) :
    Attentive e t mark g := by
  dsimp only [Line.forward] at taken
  split at taken
  · rename_i message queue closed free waiting
    cases taken
    have ringing := attends.connected.channel
    rw [waiting] at ringing
    have form : message = .deliveryChanged ∧ queue = [] ∧ closed = false := by
      rcases ringing with empty | ringing
      · cases empty
      · cases ringing
        exact ⟨rfl, rfl, rfl⟩
    obtain ⟨rfl, rfl, rfl⟩ := form
    refine ⟨⟨attends.connected.active, .inl ?_⟩, ?_, ?_, attends.stance⟩
    · rw [ConnectionHub.channel_onChannel, waiting]
      rfl
    · exact attends.flow.forward free rfl rfl rfl
    · exact attends.kept.signal (Extends.refl _) rfl
        (.inr (List.mem_append_right _ List.mem_cons_self))
  · cases taken

theorem attends_onHub {hub : ConnectionHub} (attends : Attentive e s mark g)
    (active : user ≠ e.user → e.user ∈ hub.activeIdentities)
    (channel : user ≠ e.user → hub.channel e.user s.connection = s.hub.channel e.user s.connection)
    (taken : s.onHub e user hub = some t) : Attentive e t mark g := by
  dsimp only [Line.onHub] at taken
  split at taken
  · cases taken
  rename_i apart
  cases taken
  have same : queued e { s with hub } = queued e s := by
    unfold queued
    rw [← channel apart]
  refine ⟨⟨active apart, ?_⟩, attends.flow.congr rfl rfl rfl, ?_, attends.stance⟩
  · change hub.channel e.user s.connection = _ ∨ hub.channel e.user s.connection = _
    rw [channel apart]
    exact attends.connected.channel
  · refine attends.kept.carry rfl rfl ?_ (fun owes => owes) ⟨rfl, rfl⟩
    exact Or.imp_left fun held => same.trans held

theorem attends_other {request : Request} (inv : Inv e s) (attends : Attentive e s mark g)
    (taken : s.other e here user id request = some t) : Attentive e t mark g := by
  dsimp only [Line.other] at taken
  split at taken
  · cases taken
  cases taken
  have kept := attends.kept
  have past := extends_deliver e.crypto.sha256 here s.relay user id request
  refine ⟨⟨attends.connected.active, attends.connected.channel⟩, attends.flow.congr rfl rfl rfl,
    ⟨kept.valid, kept.past.trans past, kept.since, ?_, kept.told⟩, attends.stance⟩
  cases accepted : isAccepted (answerOf (deliver e.crypto.sha256 here s.relay user id request).1) with
  | true => exact .inr (.inl (.inl (Nat.succ_pos _)))
  | false =>
    refine kept.owing.imp_right (Or.imp (fun owes => owes) ?_)
    exact owing_quiet (quiet_deliver inv.placed (isAccepted_of accepted))

end Relay

section Phases

variable {e : Engine mls} {s : Line mls} {mark : Db} {g : Reach}

theorem Attentive.still (attends : Attentive e s mark g) (other : s.phase ≠ .awaiting) :
    s.awaited = none ∧ Flow s none := by
  have rest := awaited_of_phase other
  have flow := attends.flow
  rw [rest] at flow
  exact ⟨rest, flow⟩

theorem Attentive.planned (attends : Attentive e s mark g) (waiting : s.phase = .awaiting) :
    Asks Planned s.client.program := by
  have stance := attends.stance
  unfold Stance at stance
  rw [waiting] at stance
  exact stance.1

end Phases

end Grotto.Network.Outlook
