/- GID: Grotto/Network/Wakeups
   digest: Which notifications a drive may throw away without leaving an event unnoticed. -/

import Grotto.Network.Outlook

set_option autoImplicit false

namespace Grotto.Network.Wakeups

open Format.Postcard (Octets)
open Protocol.Records Protocol.Transcripts
open Base.Progress
open Client Client.Library Client.Delivery
open Client.Machine Client.Passes
open Relay.Storage (Db)
open Relay.Deliver (deliver)
open Relay.Invariant (Valid)
open Relay.Log (Extends extends_deliver)
open Relay.Heads Relay.Hub
open Live Outlook

variable {mls : Mls}

variable {fuel : Nat} {query : MessageId × Request}

section Client

variable {e : Engine mls} {s t : Line mls} {mark : Db} {g : Reach} {c d : Process mls}
variable {rest : List RelayMessage} {client : Process mls}

theorem outlook_rest (rest : s.awaited = none) : reaches s g = g ∧ knows s = s.fetched := by
  unfold reaches knows
  rw [rest]
  exact ⟨rfl, rfl⟩

theorem kept_present (valid : Valid e.crypto.sha256 s.relay)
    (since : ∀ db, s.noticed = some db → Valid e.crypto.sha256 db ∧ Extends db s.relay)
    (told : Signalled e s ∨ ∀ room, s.relay.isSubscribed room e.user = true →
      upTo (some room) ≤ reaches s g → s.relay.head room ≤ knows s room) : Kept e s s.relay g :=
  ⟨valid, Extends.refl _, since, .inr (.inr fun _ subscribed => .inr ⟨subscribed, rfl⟩), told⟩

theorem attends_turn {phase : Phase} (connected : Connected e s)
    (flow : Flow s none) (rest : s.awaited = none) (kept : Kept e s mark g)
    (other : phase ≠ .awaiting) (stance : Stance { s with client, phase } g) :
    Attentive e { s with client, phase } mark g := by
  have still : Line.awaited { s with client, phase } = none := awaited_of_phase other
  refine ⟨⟨connected.active, connected.channel⟩, ?_, ?_, stance⟩
  · rw [still]
    exact flow.congr rfl rfl rfl
  · refine kept.carry rfl rfl (fun held => held) (fun owes => owes) ?_
    obtain ⟨reached, known⟩ := outlook_rest (g := g) rest
    rw [reached, known]
    exact outlook_rest still

theorem attends_drive (connected : Connected e s) (flow : Flow s none) (rest : s.awaited = none)
    (kept : Kept e s mark g) (taken : s.drive e fuel = some t) : Attentive e t mark g := by
  obtain ⟨client, driven, rfl⟩ := Option.map_eq_some_iff.mp taken
  refine attends_turn connected flow rest kept nofun ?_
  change Asks Planned client.program ∧ Covers client.program s.pass ∧ Covers client.program g
  rw [drive_taken driven]
  exact ⟨planned_driveInner fuel, (covers_driveInner fuel).raise bot_le,
    (covers_driveInner fuel).raise bot_le⟩

theorem attends_moves {move : Move mls} (attends : Attentive e s mark g)
    (running : s.phase = .commanding ∨ s.phase = .driving)
    (moved : ∀ {d : Process mls}, s.client.step e move = some d →
      (Asks Planned s.client.program → Asks Planned d.program) ∧
        ∀ k, Covers s.client.program k → Covers d.program k)
    (taken : s.moves e move = some t) : Attentive e t mark g := by
  obtain ⟨client, driven, rfl⟩ := Option.map_eq_some_iff.mp taken
  have other : s.phase ≠ .awaiting := by
    rcases running with commanding | driving
    · rw [commanding]
      nofun
    · rw [driving]
      nofun
  obtain ⟨rest, flow⟩ := attends.still other
  refine attends_turn attends.connected flow rest attends.kept other ?_
  obtain ⟨asks, covers⟩ := moved driven
  have stance := attends.stance
  unfold Stance at stance ⊢
  rcases running with commanding | driving
  · rw [commanding] at stance ⊢
    exact stance
  · rw [driving] at stance ⊢
    exact ⟨asks stance.1, covers _ stance.2.1, covers _ stance.2.2⟩

theorem moved_act {here : Client.Calls.Surroundings mls} (taken : c.step e (.act here) = some d) :
    (Asks Planned c.program → Asks Planned d.program) ∧
      ∀ k, Covers c.program k → Covers d.program k := by
  obtain ⟨next, rest, acting, after⟩ := act_taken taken
  rw [acting, after]
  exact ⟨fun asks => asks here c.session, fun _ covers => covers here c.session⟩

theorem moved_draw {id : Option MessageId} (taken : c.step e (.draw id) = some d) :
    (Asks Planned c.program → Asks Planned d.program) ∧
      ∀ k, Covers c.program k → Covers d.program k := by
  obtain ⟨rest, drawing, after⟩ := draw_taken taken
  rw [drawing, after]
  exact ⟨fun asks => asks id, fun _ covers => covers id⟩

theorem attends_write {rest : Option Response → Program mls Unit} (attends : Attentive e s mark g)
    (driving : s.phase = .driving) (asking : s.client.program = .ask query rest) :
    Attentive e { s with
      upstream := s.upstream ++ [query]
      phase := .awaiting
      pass := if isEarly query.2 then ⊥ else s.pass } mark g := by
  have resting : s.awaited = none := awaited_of_phase (by rw [driving]; nofun)
  have flow := attends.flow
  have stance := attends.stance
  rw [resting] at flow
  unfold Stance at stance
  rw [driving, asking] at stance
  obtain ⟨asks, pass, covers⟩ := stance
  cases flow with
  | still upstream free quiet =>
    refine ⟨⟨attends.connected.active, attends.connected.channel⟩, ?_, ?_, ?_⟩
    · have waits : Line.awaited { s with
          upstream := s.upstream ++ [query]
          phase := .awaiting
          pass := if isEarly query.2 then ⊥ else s.pass } = some query := by
        unfold Line.awaited
        rw [asking]
      rw [waits]
      refine .sent ?_ free quiet
      rw [upstream]
      rfl
    · refine attends.kept.carry rfl rfl (fun held => held) (fun owes => owes) ?_
      obtain ⟨reached, known⟩ := outlook_rest (g := g) resting
      rw [reached, known]
      exact outlook_still (coming_still free quiet)
    · change Asks Planned s.client.program ∧
        Covers s.client.program (if isEarly query.2 then ⊥ else s.pass) ∧ Covers s.client.program g
      rw [asking]
      refine ⟨asks, ?_, covers⟩
      split
      · rename_i early
        exact asks.1.2 early
      · exact pass

theorem attends_discard (inv : Inv e s) (attends : Attentive e s mark g)
    (waits : s.awaited = some query) (line : s.downstream = .deliveryChanged :: rest)
    (heeds : Heeds e s (.read fuel)) :
    ∃ mark g, Attentive e { s with downstream := rest, noticed := some s.relay } mark g := by
  have before := attends.flow
  rw [waits] at before
  have flow : Flow { s with downstream := rest, noticed := some s.relay } (some query) := by
    cases before with
    | sent first free quiet =>
      rw [line] at quiet
      exact .sent first free fun m inside => quiet m (List.mem_cons_of_mem _ inside)
    | held first held own quiet =>
      rw [line] at quiet
      exact .held first held own fun m inside => quiet m (List.mem_cons_of_mem _ inside)
    | @answered _ response front last first free downstream before after =>
      rw [line] at downstream
      cases front with
      | nil => cases downstream
      | cons m front =>
        obtain ⟨-, same⟩ := List.cons.inj downstream
        exact .answered first free same (fun m inside => before m (List.mem_cons_of_mem _ inside))
          after
  have answer : coming { s with downstream := rest, noticed := some s.relay } = coming s := by
    unfold coming
    rw [line]
    rfl
  have since : ∀ db, some s.relay = some db → Valid e.crypto.sha256 db ∧ Extends db s.relay := by
    rintro db same
    cases same
    exact ⟨inv.valid, Extends.refl _⟩
  have stance := attends.stance
  have asking := (awaited_ask waits).1
  unfold Stance at stance
  rw [asking] at stance
  have discarded : discards s (.read fuel) = true := by
    unfold discards
    rw [waits, line]
    rfl
  rcases heeds discarded with follows | current
  · refine ⟨s.relay, g, ⟨attends.connected.active, attends.connected.channel⟩, ?_, ?_, attends.stance⟩
    · change Flow _ s.awaited
      rw [waits]
      exact flow
    · refine kept_present inv.valid since (.inl (follows.imp_right fun inside => ?_))
      rw [line] at inside
      exact inside
  · refine ⟨s.relay, s.pass, ⟨attends.connected.active, attends.connected.channel⟩, ?_, ?_, ?_⟩
    · change Flow _ s.awaited
      rw [waits]
      exact flow
    · refine kept_present inv.valid since (.inr ?_)
      obtain ⟨reached, known⟩ := outlook_congr (s := s) (g := s.pass)
        (t := { s with downstream := rest, noticed := some s.relay }) rfl answer rfl
      rw [reached, known]
      exact current
    · unfold Stance
      rw [asking]
      exact ⟨stance.1, stance.2.1, stance.2.1⟩

theorem attends_answer {id : MessageId} {response : Response}
    (attends : Attentive e s mark g) (waits : s.awaited = some query)
    (line : s.downstream = .delivery id response :: rest)
    (replied : s.client.step e (.reply (some response)) = some client) :
    Attentive e { s with
      downstream := rest
      client
      phase := .driving
      pass := learn s.pass query response
      fetched := take s.fetched query response } mark (learn g query response) := by
  obtain ⟨waiting, onward, asking⟩ := awaited_ask waits
  obtain ⟨_, _, asked, after⟩ := reply_taken replied
  rw [asking] at asked
  cases asked
  have stance := attends.stance
  have flow := attends.flow
  unfold Stance at stance
  rw [waiting, asking] at stance
  rw [waits] at flow
  have quiet : s.upstream = [] ∧ s.session = none ∧ notices rest := by
    cases flow with
    | sent _ _ quiet =>
      rw [line] at quiet
      exact nomatch quiet _ List.mem_cons_self
    | held _ _ _ quiet =>
      rw [line] at quiet
      exact nomatch quiet _ List.mem_cons_self
    | @answered _ _ front _ first free downstream before after =>
      rw [line] at downstream
      cases front with
      | nil =>
        obtain ⟨-, rfl⟩ := List.cons.inj downstream
        exact ⟨first, free, after⟩
      | cons m front =>
        obtain ⟨rfl, -⟩ := List.cons.inj downstream
        exact nomatch before _ List.mem_cons_self
  obtain ⟨upstream, free, quiet⟩ := quiet
  have answer : coming s = some response := by
    unfold coming
    rw [free, line]
    rfl
  obtain ⟨reached, known⟩ := outlook_coming (g := g) waits answer
  refine ⟨⟨attends.connected.active, attends.connected.channel⟩, .still upstream free quiet, ?_, ?_⟩
  · have kept := attends.kept
    have signalled : Signalled e s → Signalled e { s with
        downstream := rest
        client
        phase := .driving
        pass := learn s.pass query response
        fetched := take s.fetched query response } := by
      refine Or.imp_right fun inside => ?_
      rw [line] at inside
      rcases List.mem_cons.mp inside with first | later
      · cases first
      · exact later
    refine ⟨kept.valid, kept.past, kept.since, kept.owing.imp_left signalled, ?_⟩
    refine kept.told.imp signalled fun told room subscribed within => ?_
    have told := told room subscribed
    rw [reached, known] at told
    exact told within
  · change Asks Planned client.program ∧ Covers client.program (learn s.pass query response) ∧
      Covers client.program (learn g query response)
    rw [after]
    exact ⟨stance.1.2 _, stance.2.1.1 response, stance.2.2.1 response⟩

theorem failing_dead (planned : Asks Planned s.client.program) (taken : s.failing e = some t) :
    isLive t = false := by
  obtain ⟨client, replied, rfl⟩ := Option.map_eq_some_iff.mp taken
  obtain ⟨query, rest, asking, after⟩ := reply_taken replied
  rw [asking] at planned
  obtain ⟨x, ends⟩ := planned.1.1
  unfold isLive
  rw [after, ends]

end Client

section Runs

variable {e : Engine mls} {s t : Line mls} {action : Action mls}

inductive Shifts (e : Engine mls) (s t : Line mls) : Prop
  | same (relay : t.relay = s.relay)
      (noticed : t.noticed = s.noticed ∨ t.noticed = some s.relay)
  | call (here : Relay.Storage.Surroundings) (user : UserId) (id : MessageId) (request : Request)
      (relay : t.relay = (deliver e.crypto.sha256 here s.relay user id request).2)
      (noticed : t.noticed = s.noticed)

theorem shifts_map {client : Option (Process mls)} {change : Process mls → Line mls}
    (taken : client.map change = some t) (kept : ∀ c, Shifts e s (change c)) : Shifts e s t := by
  obtain ⟨c, -, rfl⟩ := Option.map_eq_some_iff.mp taken
  exact kept c

theorem shifts_read (taken : s.read e fuel = some t) : Shifts e s t := by
  dsimp only [Line.read] at taken
  split at taken
  · exact shifts_map taken fun _ => .same rfl (.inr rfl)
  · cases taken
    exact .same rfl (.inl rfl)
  · rename_i query message rest _ _ _
    cases message with
    | deliveryChanged =>
      cases taken
      exact .same rfl (.inr rfl)
    | delivery id response =>
      dsimp only [Line.receive] at taken
      split at taken
      · exact shifts_map taken fun _ => .same rfl (.inl rfl)
      · exact shifts_map taken fun _ => .same rfl (.inl rfl)
    | _ => exact shifts_map taken fun _ => .same rfl (.inl rfl)
  · cases taken

theorem shifts_step (taken : s.step e action = some t) : Shifts e s t := by
  have still : ∀ {r : Line mls}, r.relay = s.relay → r.noticed = s.noticed → Shifts e s r :=
    fun relay noticed => .same relay (.inl noticed)
  cases action with
  | handle here =>
    dsimp only [Line.step, Line.handle] at taken
    split at taken
    · cases taken
      exact .call here _ _ _ rfl rfl
    · cases taken
  | other here user id request =>
    dsimp only [Line.step, Line.other] at taken
    split at taken
    · cases taken
    · cases taken
      exact .call here _ _ _ rfl rfl
  | read fuel => exact shifts_read taken
  | connect fuel =>
    dsimp only [Line.step, Line.connect] at taken
    split at taken
    · exact shifts_map taken fun _ => still rfl rfl
    · cases taken
  | register user =>
    dsimp only [Line.step, Line.onHub] at taken
    split at taken
    · split at taken
      · cases taken
      · cases taken
        exact still rfl rfl
    · cases taken
  | finish =>
    dsimp only [Line.step, Line.finish] at taken
    split at taken
    · cases taken
      exact still rfl rfl
    · cases taken
      exact still rfl rfl
    · cases taken
  | refuse | announce | respond | forward | write =>
    dsimp only [Line.step, Line.refuse, Line.announce, Line.respond, Line.forward] at taken
    split at taken
    · cases taken
      exact still rfl rfl
    · cases taken
  | otherAnnounce | unregister | drain | leave =>
    dsimp only [Line.step, Line.otherAnnounce, Line.onHub] at taken
    split at taken
    · cases taken
    · cases taken
      exact still rfl rfl
  | hangup =>
    dsimp only [Line.step, Line.hangup] at taken
    split at taken
    · cases taken
      exact still rfl rfl
    · cases taken
  | offline | tick | command | resume | act | draw | fail =>
    dsimp only [Line.step] at taken
    split at taken
    · exact shifts_map taken fun _ => still rfl rfl
    · cases taken

theorem isLive_of_phase (phase : s.phase = .idle ∨ s.phase = .commanding) : isLive s = true := by
  unfold isLive
  rcases phase with idle | commanding
  · rw [idle]
  · rw [commanding]

theorem not_away_of_isLive (live : isLive s = true) : s.phase ≠ .away := by
  intro away
  unfold isLive at live
  rw [away] at live
  cases live

theorem isLive_of_awaited (waits : s.awaited = some query) : isLive s = true := by
  obtain ⟨waiting, rest, asking⟩ := awaited_ask waits
  unfold isLive
  rw [waiting, asking]

theorem attends_again (inv : Inv e s) (phase : s.phase = .idle ∨ s.phase = .commanding)
    (taken : s.drive e fuel = some t) : ∃ mark g, Attentive e t mark g := by
  obtain ⟨mark, g, attends⟩ := inv.live (isLive_of_phase phase)
  have other : s.phase ≠ .awaiting := by
    rcases phase with idle | commanding
    · rw [idle]
      nofun
    · rw [commanding]
      nofun
  obtain ⟨rest, flow⟩ := attends.still other
  exact ⟨mark, g, attends_drive attends.connected flow rest attends.kept taken⟩

theorem attends_run {move : Move mls} (inv : Inv e s)
    (running : s.phase = .commanding ∨ s.phase = .driving)
    (unfinished : ∀ {d}, s.client.step e move = some d → ∀ r, s.client.program ≠ .done r)
    (moved : ∀ {d : Process mls}, s.client.step e move = some d →
      (Asks Planned s.client.program → Asks Planned d.program) ∧
        ∀ k, Covers s.client.program k → Covers d.program k)
    (taken : s.moves e move = some t) : ∃ mark g, Attentive e t mark g := by
  have live : isLive s = true := by
    rcases running with commanding | driving
    · exact isLive_of_phase (.inr commanding)
    obtain ⟨client, driven, -⟩ := Option.map_eq_some_iff.mp taken
    have runs := unfinished driven
    unfold isLive
    rw [driving]
    split
    · cases ‹Phase.driving = Phase.away›
    · rename_i failed
      exact absurd failed (runs _)
    · rfl
    · cases ‹Phase.driving = Phase.awaiting›
    · rfl
  obtain ⟨mark, g, attends⟩ := inv.live live
  exact ⟨mark, g, attends_moves attends running moved taken⟩

theorem attends_command {order : UserCommand} (inv : Inv e s) (idle : s.phase = .idle)
    (taken : ((s.client.step e (.command order)).map fun client =>
      { s with client, phase := .commanding }) = some t) : ∃ mark g, Attentive e t mark g := by
  obtain ⟨client, -, rfl⟩ := Option.map_eq_some_iff.mp taken
  obtain ⟨mark, g, attends⟩ := inv.live (isLive_of_phase (.inl idle))
  obtain ⟨rest, flow⟩ := attends.still (by rw [idle]; nofun)
  refine ⟨mark, g, attends_turn attends.connected flow rest attends.kept nofun ?_⟩
  have stance := attends.stance
  unfold Stance at stance
  rw [idle] at stance
  exact stance

theorem attends_finish (inv : Inv e s) (taken : s.finish = some t) (live : isLive t = true) :
    ∃ mark g, Attentive e t mark g := by
  dsimp only [Line.finish] at taken
  split at taken
  · rename_i value driving ended
    cases taken
    have awake : isLive s = true := by
      unfold isLive
      rw [driving, ended]
    obtain ⟨mark, g, attends⟩ := inv.live awake
    obtain ⟨rest, flow⟩ := attends.still (by rw [driving]; nofun)
    refine ⟨mark, g, attends_turn attends.connected flow rest attends.kept nofun ?_⟩
    have stance := attends.stance
    unfold Stance at stance
    rw [driving, ended] at stance
    exact stance.2.2 value rfl
  · cases taken
    cases live
  · cases taken

theorem attends_connect (inv : Inv e s) (taken : s.connect e fuel = some t) :
    ∃ mark g, Attentive e t mark g := by
  dsimp only [Line.connect] at taken
  split at taken
  · rename_i hub away activated
    have resting : Line.awaited { s with
        hub := (hub.register e.user).2
        connection := (hub.register e.user).1
        session := none
        upstream := []
        downstream := [] } = none := awaited_of_phase (by rw [away]; nofun)
    refine ⟨s.relay, ⊥, attends_drive ⟨?_, .inl ConnectionHub.channel_registered⟩ (.still rfl rfl ?_) resting
      (kept_present inv.valid inv.seen (.inr ?_)) taken⟩
    · have active : e.user ∈ (s.hub.activate e.user).2.activeIdentities :=
        s.hub.mem_activate.mpr (.inl rfl)
      rw [activated] at active
      exact active
    · exact fun _ inside => absurd inside List.not_mem_nil
    · intro room _ within
      rw [(outlook_rest resting).1] at within
      exact absurd within not_upTo_le_bot
  · cases taken

theorem attends_read (inv : Inv e s) (heeds : Heeds e s (.read fuel))
    (taken : s.read e fuel = some t) (live : isLive t = true) : ∃ mark g, Attentive e t mark g := by
  dsimp only [Line.read] at taken
  split at taken
  · rename_i rest idle line
    obtain ⟨mark, g, attends⟩ := inv.live (isLive_of_phase (.inl idle))
    have other : s.phase ≠ .awaiting := by
      rw [idle]
      nofun
    obtain ⟨-, flow⟩ := attends.still other
    have resting : Line.awaited { s with downstream := rest, noticed := some s.relay } = none :=
      awaited_of_phase other
    have connected : Connected e { s with downstream := rest, noticed := some s.relay } :=
      ⟨attends.connected.active, attends.connected.channel⟩
    refine ⟨s.relay, ⊥, attends_drive connected ?_ resting (kept_present inv.valid ?_ (.inr ?_)) taken⟩
    · cases flow with
      | still upstream free quiet =>
        rw [line] at quiet
        exact .still upstream free fun m inside => quiet m (List.mem_cons_of_mem _ inside)
    · rintro db same
      cases same
      exact ⟨inv.valid, Extends.refl _⟩
    · intro room _ within
      rw [(outlook_rest resting).1] at within
      exact absurd within not_upTo_le_bot
  · cases taken
    cases live
  · rename_i query message rest waiting waits line
    obtain ⟨mark, g, attends⟩ := inv.live (isLive_of_awaited waits)
    have dead : Line.failing e { s with downstream := rest } = some t → isLive t = false :=
      failing_dead (s := { s with downstream := rest }) (attends.planned waiting)
    cases message with
    | deliveryChanged =>
      cases taken
      have after := attends_discard inv attends waits line heeds
      exact after
    | delivery id response =>
      dsimp only [Line.receive] at taken
      split at taken
      · obtain ⟨client, replied, rfl⟩ := Option.map_eq_some_iff.mp taken
        exact ⟨mark, _, attends_answer attends waits line replied⟩
      · rw [dead taken] at live
        cases live
    | _ =>
      rw [dead taken] at live
      cases live
  · cases taken

def isRelays : Action mls → Bool
  | .handle _ | .refuse | .announce | .respond | .forward | .other _ _ _ _ | .otherAnnounce
  | .register _ | .unregister _ _ | .drain _ _ => true
  | _ => false

theorem client_of_relays (side : isRelays action = true) (taken : s.step e action = some t) :
    t.client = s.client ∧ t.phase = s.phase := by
  cases action with
  | handle | refuse | announce | respond | forward =>
    dsimp only [Line.step, Line.handle, Line.refuse, Line.announce, Line.respond, Line.forward] at taken
    split at taken
    · cases taken
      exact ⟨rfl, rfl⟩
    · cases taken
  | other | otherAnnounce | unregister | drain =>
    dsimp only [Line.step, Line.other, Line.otherAnnounce, Line.onHub] at taken
    split at taken
    · cases taken
    · cases taken
      exact ⟨rfl, rfl⟩
  | register user =>
    dsimp only [Line.step, Line.onHub] at taken
    split at taken
    · split at taken
      · cases taken
      · cases taken
        exact ⟨rfl, rfl⟩
    · cases taken
  | _ => cases side

theorem attends_relays {mark : Db} {g : Reach} (inv : Inv e s) (attends : Attentive e s mark g)
    (side : isRelays action = true) (taken : s.step e action = some t) : Attentive e t mark g := by
  have active := attends.connected.active
  cases action with
  | handle here => exact attends_handle inv attends taken
  | refuse => exact attends_refuse attends taken
  | announce => exact attends_announce attends taken
  | respond => exact attends_respond attends taken
  | forward => exact attends_forward attends taken
  | other here user id request => exact attends_other inv attends taken
  | otherAnnounce => exact attends_otherAnnounce attends taken
  | register user =>
    dsimp only [Line.step] at taken
    split at taken
    · rename_i hub activated
      have hubs : (s.hub.activate user).2 = hub := by rw [activated]
      refine attends_onHub attends (fun _ => ?_) (fun apart => ?_) taken
      · rw [← hubs]
        exact s.hub.mem_activate.mpr (.inr active)
      · rw [ConnectionHub.channel_register apart, ← hubs, ConnectionHub.channel_activate]
    · cases taken
  | unregister user id =>
    refine attends_onHub attends (fun apart => ?_) (fun apart => ?_) taken
    · exact (ConnectionHub.mem_deactivate _).mpr ⟨active, apart.symm⟩
    · exact ConnectionHub.channel_unregister apart
  | drain user id =>
    refine attends_onHub attends (fun _ => ?_) (fun apart => ?_) taken
    · exact active
    · exact ConnectionHub.channel_onOther apart
  | _ => cases side

theorem attends_step (inv : Inv e s) (taken : s.step e action = some t) (heeds : Heeds e s action)
    (live : isLive t = true) : ∃ mark g, Attentive e t mark g := by
  cases side : isRelays action with
  | true =>
    obtain ⟨client, phase⟩ := client_of_relays side taken
    have same : isLive t = isLive s := by
      unfold isLive
      rw [client, phase]
    rw [same] at live
    obtain ⟨mark, g, attends⟩ := inv.live live
    exact ⟨mark, g, attends_relays inv attends side taken⟩
  | false =>
    cases action with
    | connect fuel => exact attends_connect inv taken
    | read fuel => exact attends_read inv heeds taken live
    | hangup =>
      dsimp only [Line.step, Line.hangup] at taken
      split at taken
      · rename_i away
        cases taken
        exact (not_away_of_isLive live away.1).elim
      · cases taken
    | offline move =>
      dsimp only [Line.step] at taken
      split at taken
      · rename_i away
        obtain ⟨client, -, rfl⟩ := Option.map_eq_some_iff.mp taken
        exact (not_away_of_isLive live away.1).elim
      · cases taken
    | tick fuel =>
      dsimp only [Line.step] at taken
      split at taken
      · rename_i idle
        exact attends_again inv (.inl idle) taken
      · cases taken
    | resume fuel =>
      dsimp only [Line.step] at taken
      split at taken
      · rename_i commanding
        exact attends_again inv (.inr commanding) taken
      · cases taken
    | command order =>
      dsimp only [Line.step] at taken
      split at taken
      · rename_i idle
        exact attends_command inv idle taken
      · cases taken
    | act here =>
      dsimp only [Line.step] at taken
      split at taken
      · rename_i running
        refine attends_run inv running (fun driven r ended => ?_) moved_act taken
        obtain ⟨next, rest, acting, -⟩ := act_taken driven
        rw [acting] at ended
        cases ended
      · cases taken
    | draw id =>
      dsimp only [Line.step] at taken
      split at taken
      · rename_i running
        refine attends_run inv running (fun driven r ended => ?_) moved_draw taken
        obtain ⟨rest, drawing, -⟩ := draw_taken driven
        rw [drawing] at ended
        cases ended
      · cases taken
    | write =>
      dsimp only [Line.step] at taken
      split at taken
      · rename_i query rest driving asking
        cases taken
        have awake : isLive s = true := by
          unfold isLive
          rw [driving, asking]
        obtain ⟨mark, g, attends⟩ := inv.live awake
        exact ⟨mark, g, attends_write attends driving asking⟩
      · cases taken
    | fail =>
      dsimp only [Line.step] at taken
      split at taken
      · rename_i waiting
        obtain ⟨client, replied, -⟩ := Option.map_eq_some_iff.mp taken
        obtain ⟨query, rest, asking, -⟩ := reply_taken replied
        have waits : s.awaited = some query := by
          unfold Line.awaited
          rw [waiting, asking]
        obtain ⟨mark, g, attends⟩ := inv.live (isLive_of_awaited waits)
        rw [failing_dead (attends.planned waiting) taken] at live
        cases live
      · cases taken
    | finish => exact attends_finish inv taken live
    | leave =>
      dsimp only [Line.step] at taken
      split at taken
      · cases taken
      · cases taken
        cases live
    | _ => cases side

theorem inv_start : Inv e (Line.start mls) :=
  ⟨Valid.empty _, placed_empty, nofun, nofun⟩

theorem inv_step (inv : Inv e s) (taken : s.step e action = some t) (heeds : Heeds e s action) :
    Inv e t := by
  have live := attends_step inv taken heeds
  cases shifts_step taken with
  | same relay noticed =>
    refine ⟨relay ▸ inv.valid, relay ▸ inv.placed, fun db seen => ?_, live⟩
    rw [relay]
    rcases noticed with kept | now
    · exact inv.seen db (kept ▸ seen)
    · rw [now] at seen
      cases seen
      exact ⟨inv.valid, Extends.refl _⟩
  | call here user id request relay noticed =>
    refine ⟨relay ▸ inv.valid.deliver here user id request, relay ▸ placed_deliver inv.valid inv.placed,
      fun db seen => ?_, live⟩
    rw [relay]
    obtain ⟨valid, past⟩ := inv.seen db (noticed ▸ seen)
    exact ⟨valid, past.trans (extends_deliver _ here _ user id request)⟩

theorem inv_reaches (run : Reaches e (Heeds e) s) : Inv e s := by
  induction run with
  | start => exact inv_start
  | step before taken heeds ih => exact inv_step ih taken heeds

/-- In its idle loop, with no notification on the way, the client has fetched the heads the rooms
had at the last notification, and the present ones unless an append is still to be announced. -/
def Awake (e : Engine mls) (s : Line mls) : Prop :=
  s.phase = .idle → queued e s = false → .deliveryChanged ∉ s.downstream →
    (∀ db, s.noticed = some db → ∀ room, db.isSubscribed room e.user = true →
      db.head room ≤ s.fetched room) ∧
    (s.owed = 0 → ∀ room, s.relay.isSubscribed room e.user = true →
      s.relay.head room ≤ s.fetched room)

theorem awake_of_inv (inv : Inv e s) : Awake e s := by
  intro idle unqueued empty
  obtain ⟨mark, g, attends⟩ := inv.live (isLive_of_phase (.inl idle))
  have silent : ¬Signalled e s := by
    rintro (waits | inside)
    · rw [unqueued] at waits
      cases waits
    · exact empty inside
  obtain ⟨rest, flow⟩ := attends.still (by rw [idle]; nofun)
  have free : s.session = none := by
    cases flow with
    | still _ free => exact free
  have stance := attends.stance
  unfold Stance at stance
  rw [idle] at stance
  obtain rfl : g = ⊤ := stance
  have kept := attends.kept
  have told : ∀ room, mark.isSubscribed room e.user = true → mark.head room ≤ s.fetched room := by
    have told := kept.told.resolve_left silent
    obtain ⟨reached, known⟩ := outlook_rest (g := ⊤) rest
    rw [reached, known] at told
    exact fun room subscribed => told room subscribed le_top
  refine ⟨fun db noticed room subscribed => ?_, fun paid room subscribed => ?_⟩
  · obtain ⟨valid, past⟩ := kept.since db noticed
    exact (head_mono past valid kept.valid room).trans (told room (isSubscribed_mono past subscribed))
  have settled := (kept.owing.resolve_left silent).resolve_left fun owes =>
    absurd (owes.of_free free) (by omega)
  rcases settled room subscribed with none | ⟨member, same⟩
  · rw [none]
    exact Nat.zero_le _
  · rw [same]
    exact told room member

/-- If every notification that a drive throws away is followed by another, or found nothing new in
the rooms the drive has passed, no wakeup is lost. -/
theorem no_wakeup_lost (run : Reaches e (Heeds e) s) : Awake e s :=
  awake_of_inv (inv_reaches run)

end Runs

section Samples

variable {e : Engine mls} {s : Line mls} {may also : Line mls → Action mls → Prop}

theorem reaches_mono (run : Reaches e may s) (weaken : ∀ s action, may s action → also s action) :
    Reaches e also s := by
  induction run with
  | start => exact .start
  | step before taken allowed ih => exact .step ih taken (weaken _ _ allowed)

variable (e)

def advance (s : Line mls) (action : Action mls) : Line mls :=
  if discards s action then s else (s.step e action).getD s

/-- The session takes a request and answers it, and the client reads the answer. -/
def exchange : List (Action mls) := [.handle Relay.Deliver.idle, .announce, .respond, .read 0]

/-- The program of the client carried on, with identifiers in the order given, up to a request
where it is stopped. -/
def serve (here : Client.Calls.Surroundings mls) (stop : Request → Bool) :
    Nat → List MessageId → Line mls → Line mls
  | 0, _, s => s
  | fuel + 1, ids, s =>
    match s.phase, s.client.program with
    | .driving, .done _ => advance e s .finish
    | .driving, .act _ _ => serve here stop fuel ids (advance e s (.act here))
    | .driving, .draw _ => serve here stop fuel ids.tail (advance e s (.draw ids.head?))
    | .driving, .ask query _ =>
      if stop query.2 then advance e s .write else serve here stop fuel ids (advance e s .write)
    | .awaiting, _ => serve here stop fuel ids (exchange.foldl (advance e) s)
    | .away, .act _ _ => serve here stop fuel ids (advance e s (.offline (.act here)))
    | _, _ => s

variable {e}

theorem reaches_getD {action : Action mls} (run : Reaches e may s) (allowed : may s action) :
    Reaches e may ((s.step e action).getD s) := by
  cases taken : s.step e action with
  | none => exact run
  | some t => exact .step run taken allowed

theorem reaches_advance (careful : ∀ s action, discards s action = false → may s action)
    (action : Action mls) (run : Reaches e may s) : Reaches e may (advance e s action) := by
  unfold advance
  cases thrown : discards s action with
  | true => exact run
  | false => exact reaches_getD run (careful s action thrown)

theorem reaches_actions (careful : ∀ s action, discards s action = false → may s action)
    (actions : List (Action mls)) (run : Reaches e may s) :
    Reaches e may (actions.foldl (advance e) s) := by
  induction actions generalizing s with
  | nil => exact run
  | cons action actions ih => exact ih (reaches_advance careful action run)

theorem reaches_serve (careful : ∀ s action, discards s action = false → may s action)
    (here : Client.Calls.Surroundings mls) (stop : Request → Bool) (fuel : Nat) (ids : List MessageId)
    (run : Reaches e may s) : Reaches e may (serve e here stop fuel ids s) := by
  induction fuel generalizing ids s with
  | zero => exact run
  | succ fuel ih =>
    unfold serve
    split
    · exact reaches_advance careful _ run
    · exact ih _ (reaches_advance careful _ run)
    · exact ih _ (reaches_advance careful _ run)
    · split
      · exact reaches_advance careful _ run
      · exact ih _ (reaches_advance careful _ run)
    · exact ih _ (reaches_actions careful _ run)
    · exact ih _ (reaches_advance careful _ run)
    · exact run

theorem heeds_of_kept (s : Line mls) (action : Action mls) (kept : discards s action = false) :
    Heeds e s action := by
  intro thrown
  rw [kept] at thrown
  cases thrown

def lastBytes : Hash := fun bytes => ⟨(bytes.reverse ++ List.replicate 32 0).take 32, by simp⟩

def listener : Engine Cleartext.mls :=
  { clearEngine (sampleUser 1) with crypto := ⟨lastBytes, fun _ _ _ => true⟩ }

def invite (room : UInt8) : Append where
  room := sampleRoom room
  parent := 0
  epoch := 0
  contentType := .commit
  body := [1]
  welcome := some
    { recipient := sampleUser 1
      body := (toWire Cleartext.mls ⟨.welcome, 1, 0, [], (sampleRoom room).bytes.toList,
        [(clearEngine (sampleUser 2)).client, (clearEngine (sampleUser 1)).client]⟩).getD []
      signature := Octets.replicate 64 0 }

def greet (room id : UInt8) : Append where
  room := sampleRoom room
  parent := 1
  epoch := 1
  contentType := .application
  body := (toWire Cleartext.mls ⟨.application, 1, 0,
    eventAuthenticatedData (sampleRoom room) (sampleId id) 1, [7], []⟩).getD []
  welcome := none

def byOther (id : UInt8) (request : Request) : Action Cleartext.mls :=
  .other { Relay.Deliver.idle with newRoom := some (sampleRoom id) } (sampleUser 2) (sampleId id) request

def introduced : Line Cleartext.mls :=
  let card := (clearEngine (sampleUser 2)).ownCard
  serve listener calm (fun _ => false) 50 []
    ([.offline (.start calm),
      .offline (.command (.contactImport card.encode (card.fingerprint listener.crypto)))].foldl
        (advance listener) (Line.start _))

/-- User 2 invites it to rooms 7 and 8 and writes in room 8; then user 1 connects. -/
def invited : Line Cleartext.mls :=
  [byOther 7 (.createRoom "a"), byOther 8 (.createRoom "b"),
    byOther 20 (.appendRoomOperation (invite 7)), .otherAnnounce,
    byOther 21 (.appendRoomOperation (invite 8)), .otherAnnounce,
    byOther 22 (.appendRoomOperation (greet 8 22)), .otherAnnounce,
    .connect 9].foldl (advance listener) introduced

theorem reaches_invited : Reaches listener (Heeds listener) invited :=
  reaches_actions heeds_of_kept _
    (reaches_serve heeds_of_kept _ _ _ _ (reaches_actions heeds_of_kept _ .start))

/-- The drive waits for an answer when user 2 writes in room 7. -/
def interrupted (stop : Request → Bool) : Line Cleartext.mls :=
  [byOther 23 (.appendRoomOperation (greet 7 23)), .otherAnnounce, .forward].foldl (advance listener)
    (serve listener calm stop 100 ([31, 32, 33].map sampleId) invited)

theorem reaches_interrupted (stop : Request → Bool) :
    Reaches listener (Heeds listener) (interrupted stop) :=
  reaches_actions heeds_of_kept _ (reaches_serve heeds_of_kept _ _ _ _ reaches_invited)

/-- It throws the notification away and drives on to its idle loop. -/
def resumed (stop : Request → Bool) : Line Cleartext.mls :=
  serve listener calm (fun _ => false) 100 ([34, 35, 36, 37].map sampleId)
    (((interrupted stop).step listener (.read 0)).getD (interrupted stop))

def isWelcomes : Request → Bool
  | .fetchWelcomes _ => true
  | _ => false

def notified : Line Cleartext.mls := resumed isWelcomes

theorem reaches_notified : Reaches listener (Heeds listener) notified := by
  have unread : reaches (interrupted isWelcomes) (interrupted isWelcomes).pass = ⊥ := by decide +kernel
  have heeded : Heeds listener (interrupted isWelcomes) (.read 0) := by
    refine fun _ => .inr fun room _ within => ?_
    rw [unread] at within
    exact absurd within not_upTo_le_bot
  exact reaches_serve heeds_of_kept _ _ _ _ (reaches_getD (reaches_interrupted _) heeded)

theorem no_wakeup_lost_notified :
    discards (interrupted isWelcomes) (.read 0) = true ∧ notified.phase = .idle ∧
      notified.relay.head (sampleRoom 7) = 2 ∧
      notified.relay.head (sampleRoom 7) ≤ notified.fetched (sampleRoom 7) := by
  have facts : discards (interrupted isWelcomes) (.read 0) = true ∧ notified.phase = .idle ∧
      notified.relay.head (sampleRoom 7) = 2 ∧ queued listener notified = false ∧
      .deliveryChanged ∉ notified.downstream ∧ notified.owed = 0 ∧
      notified.relay.isSubscribed (sampleRoom 7) (sampleUser 1) = true := by decide +kernel
  obtain ⟨thrown, idle, head, unqueued, empty, paid, subscribed⟩ := facts
  exact ⟨thrown, idle, head, (no_wakeup_lost reaches_notified idle unqueued empty).2 paid _ subscribed⟩

def isFetch : Request → Bool
  | .fetchRoomEvents _ _ => true
  | _ => false

def overheard : Line Cleartext.mls := resumed isFetch

theorem reaches_overheard : Reaches listener (fun _ _ => True) overheard :=
  reaches_serve (fun _ _ _ => trivial) _ _ _ _
    (reaches_getD (reaches_mono (reaches_interrupted _) fun _ _ _ => trivial) trivial)

/-- The client is idle and nothing is on its way, but the message in room 7 is not known to it. -/
theorem wakeup_lost_overheard :
    Reaches listener (fun _ _ => True) overheard ∧ overheard.phase = .idle ∧
      queued listener overheard = false ∧ .deliveryChanged ∉ overheard.downstream ∧
      overheard.owed = 0 ∧ overheard.session = none ∧
      overheard.relay.isSubscribed (sampleRoom 7) (sampleUser 1) = true ∧
      isUnresolved overheard.client.store (sampleRoom 7) = false ∧
      isBlocked overheard.client.store (sampleRoom 7) 1 = false ∧
      (overheard.noticed.map fun db => db.head (sampleRoom 7)) = some 2 ∧
      overheard.fetched (sampleRoom 7) = 1 ∧
      cursorOf overheard.client.store (sampleRoom 7) = 1 := by
  refine ⟨reaches_overheard, ?_⟩
  decide +kernel

end Samples

end Grotto.Network.Wakeups
