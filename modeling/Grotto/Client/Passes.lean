/- GID: Grotto/Client/Passes
   digest: A drive that succeeds has read the whole room index after its outbox and its Welcomes. -/

import Grotto.Base.Progress
import Grotto.Client.Delivery
import Mathlib.Order.WithBot

set_option autoImplicit false

namespace Grotto.Client.Passes

open Protocol.Records
open Base.Program Base.Progress
open Library Tables Delivery

/-- How far an index pass has come: no room yet, the rooms up to one, or all of them. -/
abbrev Reach := WithTop (WithBot RoomId)

def upTo : Option RoomId → Reach
  | none => ⊥
  | some room => ((room : WithBot RoomId) : Reach)

/-- A page that continues the pass takes it to its last room, and the last page to the end. -/
def learn (g : Reach) (query : MessageId × Request) (response : Response) : Reach :=
  match query.2, response with
  | .syncIndex after, .syncIndex rooms more =>
    if upTo after ≤ g then
      max g (if more then upTo (rooms.getLast?.map RoomHead.room) else ⊤)
    else g
  | _, _ => g

variable {id : MessageId} {after : Option RoomId}

theorem learn_page {g : Reach} {rooms : List RoomHead} {more : Bool} :
    learn g (id, .syncIndex after) (.syncIndex rooms more) =
      if upTo after ≤ g then
        max g (if more then upTo (rooms.getLast?.map RoomHead.room) else ⊤)
      else g := rfl

theorem learn_cases (g : Reach) (query : MessageId × Request) (response : Response) :
    learn g query response = g ∨ ∃ id after rooms more, query = (id, .syncIndex after) ∧
      response = .syncIndex rooms more := by
  unfold learn
  split
  · rename_i after rooms more same
    exact .inr ⟨query.1, after, rooms, more, Prod.ext rfl same, rfl⟩
  · exact .inl rfl

theorem grows_learn : Grows learn where
  grows g query response := by
    rcases learn_cases g query response with same | ⟨id, after, rooms, more, rfl, rfl⟩
    · rw [same]
    · rw [learn_page]
      split
      · exact le_max_left _ _
      · exact le_rfl
  mono g k query response less := by
    unfold learn
    split
    · split
      · rename_i placed
        rw [if_pos (placed.trans less)]
        exact max_le_max less le_rfl
      · split
        · exact less.trans (le_max_left _ _)
        · exact less
    · exact less

variable {mls : Mls} {α β : Type} {e : Engine mls} {g : Reach}

abbrev Covers (p : Program mls α) (g : Reach) : Prop :=
  Tracks learn (fun g r => ∀ a, r = .ok a → g = ⊤) p g

theorem covers_top (p : Program mls α) : Covers p ⊤ :=
  (tracks_grow grows_learn p ⊤).mono fun _ _ reached _ _ => top_le_iff.mp reached

variable {p : Program mls α} {k : Reach}

theorem Covers.raise (covers : Covers p g) (more : g ≤ k) : Covers p k := by
  refine Tracks.raise grows_learn covers more fun g k r less whole a done => ?_
  have whole := whole a done
  rw [whole] at less
  exact top_le_iff.mp less

variable {f : α → Program mls β}

theorem covers_bind (rest : ∀ a, Covers (f a) g) : Covers (p >>= f) g :=
  (tracks_grow grows_learn p g).bind (fun a _ reached => (rest a).raise reached) fun _ _ _ => nofun

theorem Covers.bind (first : Covers p g) : Covers (p >>= f) g := by
  refine Tracks.bind first (fun a k whole => ?_) fun _ _ _ => nofun
  rw [whole a rfl]
  exact covers_top (f a)

variable {request : Request} {fuel : Nat}

section Index

theorem tracks_wireRequest :
    Tracks learn (fun k r => ∀ response, r = .ok response → learn g (id, request) response ≤ k)
      (wireRequest id request : Program mls Response) g := by
  unfold wireRequest
  split
  · exact tracks_fail nofun
  · refine ⟨fun a response same => ?_, nofun⟩
    rw [Except.ok.inj same]

/-- What `readAgain` does with an answer. -/
def answered (id : MessageId) (request : Request) (fuel : Nat) : Response → Program mls Response
  | .rejected .overloaded | .rejected .internal => readAgain id request fuel
  | response => pure response

theorem readAgain_succ (id : MessageId) (request : Request) (fuel : Nat) :
    (readAgain id request (fuel + 1) : Program mls Response) =
      wireRequest id request >>= answered id request fuel := by
  rfl

theorem answered_cases (id : MessageId) (request : Request) (fuel : Nat) (response : Response) :
    (answered id request fuel response : Program mls Response) = readAgain id request fuel ∨
      (answered id request fuel response : Program mls Response) = pure response := by
  unfold answered
  split
  · exact .inl rfl
  · exact .inl rfl
  · exact .inr rfl

theorem tracks_readAgain (fuel : Nat) :
    Tracks learn (fun k r => ∀ response, r = .ok response → learn g (id, request) response ≤ k)
      (readAgain id request fuel : Program mls Response) g := by
  induction fuel generalizing g with
  | zero => exact tracks_fail nofun
  | succ fuel ih =>
    rw [readAgain_succ]
    refine tracks_wireRequest.bind (fun response k reached => ?_) fun _ _ _ => nofun
    have past : g ≤ k := (grows_learn.grows g _ _).trans (reached response rfl)
    rcases answered_cases id request fuel response with retried | final
    · rw [retried]
      exact ih.mono fun m r told answer same =>
        (grows_learn.mono g k _ answer past).trans (told answer same)
    · rw [final]
      refine tracks_pure fun answer same => ?_
      rw [← Except.ok.inj same]
      exact reached response rfl

theorem tracks_read :
    Tracks learn (fun k r => ∀ response, r = .ok response → ∃ id, learn g (id, request) response ≤ k)
      (read fuel request : Program mls Response) g := by
  intro drawn
  cases drawn with
  | none => exact nofun
  | some id => exact (tracks_readAgain fuel).mono fun k r told response same => ⟨id, told response same⟩

theorem tracks_syncHeads {heads : List RoomHead} :
    Tracks learn (fun k r => g ≤ k ∧ ∀ last, r = .ok last →
      last = (heads.getLast?.map RoomHead.room).or after)
      (syncHeads e fuel after heads : Program mls (Option RoomId)) g := by
  induction heads generalizing after g with
  | nil => exact tracks_pure ⟨le_rfl, fun last same => (Except.ok.inj same).symm⟩
  | cons head heads ih =>
    have onward : ∀ {k}, g ≤ k → Tracks learn (fun k r => g ≤ k ∧ ∀ last, r = .ok last →
        last = (((head :: heads).getLast?).map RoomHead.room).or after)
        (syncHeads e fuel (some head.room) heads) k := by
      intro k past
      refine ih.mono fun m r told => ⟨past.trans told.1, fun last same => ?_⟩
      rw [told.2 last same]
      cases heads with
      | nil => rfl
      | cons next heads =>
        rw [List.getLast?_cons_cons]
        cases more : (next :: heads).getLast? with
        | none => simp at more
        | some final => rfl
    unfold syncHeads
    split
    · exact tracks_fail ⟨le_rfl, nofun⟩
    refine (tracks_grow grows_learn _ g).bind (fun current k past => ?_)
      fun _ _ past => ⟨past, nofun⟩
    split
    · exact tracks_fail ⟨past, nofun⟩
    refine (tracks_grow grows_learn _ k).bind (fun _ l next => ?_)
      fun _ _ next => ⟨past.trans next, nofun⟩
    refine (tracks_grow grows_learn _ l).bind (fun waits m then_ => ?_)
      fun _ _ then_ => ⟨(past.trans next).trans then_, nofun⟩
    have reached := (past.trans next).trans then_
    split
    · exact onward reached
    refine (tracks_grow grows_learn _ m).bind (fun held n also => ?_)
      fun _ _ also => ⟨reached.trans also, nofun⟩
    split
    · exact onward (reached.trans also)
    · exact (tracks_grow grows_learn _ n).bind
        (fun _ _ more => onward ((reached.trans also).trans more))
        fun _ _ more => ⟨(reached.trans also).trans more, nofun⟩

/-- What `syncIndex` does with the answer to its read. -/
def indexPage (e : Engine mls) (fuel : Nat) (after : Option RoomId) : Response → Program mls Unit
  | .syncIndex rooms more =>
    if more ∧ rooms.isEmpty then Prog.fail (.text "empty continuing room index")
    else do
      let last ← syncHeads e (fuel + 1) after rooms
      if more then syncIndex e fuel last else pure ()
  | _ => Prog.fail (.text "invalid room index response")

theorem syncIndex_succ (fuel : Nat) (after : Option RoomId) :
    syncIndex e (fuel + 1) after =
      read (fuel + 1) (.syncIndex after) >>= indexPage e fuel after := by
  rfl

theorem covers_indexPage_of {response : Response} (placed : upTo after ≤ g)
    (told : learn g (id, .syncIndex after) response ≤ k)
    (next : ∀ {after g}, upTo after ≤ g → Covers (syncIndex e fuel after) g) :
    Covers (indexPage e fuel after response) k := by
  unfold indexPage
  split
  · rename_i rooms more
    rw [learn_page, if_pos placed] at told
    split
    · exact tracks_fail nofun
    rename_i continues
    refine tracks_syncHeads.bind (fun last m reached => ?_) fun _ _ _ => nofun
    obtain ⟨past, final⟩ := reached
    have told := told.trans past
    cases more with
    | false =>
      refine tracks_pure fun _ _ => ?_
      exact top_le_iff.mp ((le_max_right _ _).trans told)
    | true =>
      refine next ?_
      have nonempty : rooms ≠ [] := by
        rintro rfl
        exact continues ⟨rfl, rfl⟩
      rw [final last rfl, Option.or_of_isSome]
      · exact (le_max_right _ _).trans told
      · rw [Option.isSome_map, List.getLast?_isSome]
        exact nonempty
  · exact tracks_fail nofun

theorem covers_syncIndex (fuel : Nat) (placed : upTo after ≤ g) :
    Covers (syncIndex e fuel after) g := by
  induction fuel generalizing after g with
  | zero => exact tracks_fail nofun
  | succ fuel ih =>
    rw [syncIndex_succ]
    refine tracks_read.bind (fun response k told => ?_) fun _ _ _ => nofun
    obtain ⟨id, told⟩ := told response rfl
    exact covers_indexPage_of placed told ih

theorem covers_indexPage {response : Response} (placed : upTo after ≤ g)
    (told : learn g (id, .syncIndex after) response ≤ k) :
    Covers (indexPage e fuel after response) k :=
  covers_indexPage_of placed told (covers_syncIndex fuel)

end Index

section Drives

def isEarly : Request → Bool
  | .syncIndex (some _) | .fetchRoomEvents _ _ => false
  | _ => true

def Fragile (_ : MessageId × Request) (rest : Option Response → Program mls α) : Prop :=
  ∃ x, rest none = .done (.error x)

def Planned (query : MessageId × Request) (rest : Option Response → Program mls α) : Prop :=
  Fragile query rest ∧ (isEarly query.2 = true → Covers (Prog.ask query rest) ⊥)

def Late (query : MessageId × Request) (rest : Option Response → Program mls α) : Prop :=
  Fragile query rest ∧ isEarly query.2 = false

theorem Fragile.bind {query : MessageId × Request} {rest : Option Response → Program mls α}
    (fragile : Fragile query rest) : Fragile query fun a => rest a >>= f := by
  obtain ⟨x, ends⟩ := fragile
  refine ⟨x, ?_⟩
  dsimp only
  rw [ends]
  rfl

theorem asks_wireRequest :
    Asks (fun query rest => Fragile query rest ∧ query.2 = request)
      (wireRequest id request : Program mls Response) := by
  unfold wireRequest
  split
  · exact asks_fail
  · refine ⟨⟨⟨.disconnected, rfl⟩, rfl⟩, fun a => ?_⟩
    cases a with
    | none => exact trivial
    | some a => exact trivial

theorem asks_read :
    Asks (fun query rest => Fragile query rest ∧ query.2 = request)
      (read fuel request : Program mls Response) := by
  have again : ∀ id, Asks (fun query rest => Fragile query rest ∧ query.2 = request)
      (readAgain id request fuel : Program mls Response) := by
    intro id
    induction fuel with
    | zero => exact asks_fail
    | succ fuel ih =>
      rw [readAgain_succ]
      refine Asks.bind (asks_wireRequest.mono fun _ _ both => ⟨both.1.bind, both.2⟩)
        fun response => ?_
      rcases answered_cases id request fuel response with retried | final
      · rw [retried]
        exact ih
      · rw [final]
        exact asks_pure
  exact Asks.bind asks_fresh again

theorem late_bind (first : Asks Late p) (rest : ∀ a, Asks Late (f a)) : Asks Late (p >>= f) :=
  (first.mono fun _ _ late => ⟨late.1.bind, late.2⟩).bind rest

theorem late_read (late : isEarly request = false) :
    Asks Late (read fuel request : Program mls Response) :=
  asks_read.mono fun _ _ both => ⟨both.1, by rw [both.2]; exact late⟩

theorem late_receivePage {room : RoomId} {expected : Nat} {events : List Event} :
    Asks Late (receivePage room expected events : Program mls Unit) := by
  induction events generalizing expected with
  | nil => exact asks_pure
  | cons event events ih =>
    unfold receivePage
    split
    · exact asks_fail
    · exact late_bind asks_perform fun _ => ih

theorem late_applyPage {events : List Event} : Asks Late (applyPage e events) := by
  induction events with
  | nil => exact asks_pure
  | cons event events ih =>
    refine late_bind asks_perform fun settled => ?_
    split
    · exact ih
    · exact asks_pure

theorem late_syncRoom {room : RoomId} {head : Nat} (fuel : Nat) :
    Asks Late (syncRoom e room head fuel) := by
  induction fuel with
  | zero => exact asks_fail
  | succ fuel ih =>
    refine late_bind asks_perform fun behind => ?_
    split
    · exact asks_pure
    refine late_bind asks_perform fun current => ?_
    refine late_bind (late_read rfl) fun response => ?_
    split
    · split
      · exact asks_fail
      · refine late_bind late_receivePage fun _ => late_bind late_applyPage fun settled => ?_
        split
        · exact ih
        · exact asks_pure
    · exact asks_fail

theorem late_syncHeads {heads : List RoomHead} : Asks Late (syncHeads e fuel after heads) := by
  induction heads generalizing after with
  | nil => exact asks_pure
  | cons head heads ih =>
    unfold syncHeads
    split
    · exact asks_fail
    refine late_bind asks_perform fun current => ?_
    split
    · exact asks_fail
    refine late_bind asks_perform fun _ => late_bind asks_perform fun waits => ?_
    split
    · exact ih
    refine late_bind asks_perform fun held => ?_
    split
    · exact ih
    · exact late_bind (late_syncRoom fuel) fun _ => ih

end Drives

section Plans

theorem planned_of_late (first : Asks Late p) (rest : ∀ a, Asks Planned (f a)) :
    Asks Planned (p >>= f) := by
  refine (first.mono fun query onward late => ⟨late.1.bind, fun early => ?_⟩).bind rest
  rw [late.2] at early
  cases early

theorem planned_of_covers (first : Asks Fragile p) (covers : ∀ a, Covers (f a) ⊥)
    (rest : ∀ a, Asks Planned (f a)) : Asks Planned (p >>= f) := by
  refine (first.mono fun query onward fragile => ⟨fragile.bind, fun _ => ?_⟩).bind rest
  exact covers_bind (p := Prog.ask query onward) covers

theorem planned_read {f : Response → Program mls β}
    (covers : isEarly request = true → ∀ id response k, learn ⊥ (id, request) response ≤ k →
      Covers (f response) k) (rest : ∀ response, Asks Planned (f response)) :
    Asks Planned (read fuel request >>= f) := by
  have whole : isEarly request = true → ∀ id n, Covers (readAgain id request n >>= f) ⊥ :=
    fun early id n => (tracks_readAgain n).bind
      (fun response k told => covers early id response k (told response rfl)) fun _ _ _ => nofun
  have again : ∀ id n, Asks Planned (readAgain id request n >>= f) := by
    intro id n
    induction n with
    | zero => exact asks_fail
    | succ n ih =>
      have covers := fun early => whole early id (n + 1)
      rw [readAgain_succ, Base.Progress.bind_assoc] at covers ⊢
      unfold wireRequest at covers ⊢
      split at covers
      · exact asks_fail
      refine ⟨⟨⟨.disconnected, rfl⟩, covers⟩, fun answer => ?_⟩
      cases answer with
      | none => exact asks_fail
      | some response =>
        change Asks Planned (answered id request n response >>= f)
        rcases answered_cases id request n response with retried | final
        · rw [retried]
          exact ih
        · rw [final]
          exact rest response
  unfold Delivery.read
  rw [Base.Progress.bind_assoc]
  exact Asks.bind asks_fresh fun id => again id fuel

theorem fragile_bind (first : Asks Fragile p) (rest : ∀ a, Asks Fragile (f a)) :
    Asks Fragile (p >>= f) :=
  (first.mono fun _ _ fragile => fragile.bind).bind rest

theorem fragile_sendEntries {after : Nat} {entries : List OutboxRow} :
    Asks Fragile (sendEntries e after entries) := by
  induction entries generalizing after with
  | nil => exact asks_pure
  | cons entry entries ih =>
    unfold sendEntries
    split
    · exact asks_fail
    · split
      · exact asks_fail
      · refine fragile_bind (asks_wireRequest.mono fun _ _ both => both.1) fun response => ?_
        exact fragile_bind asks_perform fun _ => ih
    · exact asks_fail

theorem fragile_sendOutbox (fuel : Nat) {after : Nat} : Asks Fragile (sendOutbox e fuel after) := by
  induction fuel generalizing after with
  | zero => exact asks_fail
  | succ fuel ih =>
    refine fragile_bind asks_perform fun page => ?_
    split
    · exact asks_pure
    · exact fragile_bind fragile_sendEntries fun last => ih

theorem fragile_fetchWelcomes (fuel : Nat) : Asks Fragile (fetchWelcomes e fuel) := by
  induction fuel with
  | zero => exact asks_fail
  | succ fuel ih =>
    refine fragile_bind asks_perform fun cursor => ?_
    refine fragile_bind (asks_read.mono fun _ _ both => both.1) fun response => ?_
    split
    · split
      · exact asks_fail
      split
      · exact asks_pure
      · refine fragile_bind asks_perform fun _ => ?_
        split
        · exact ih
        · exact asks_pure
    · exact asks_fail

theorem fragile_processWelcomes (fuel : Nat) {after : Nat} :
    Asks Fragile (processWelcomes e fuel after) := by
  induction fuel generalizing after with
  | zero => exact asks_fail
  | succ fuel ih =>
    refine fragile_bind asks_perform fun next => ?_
    split
    · exact asks_pure
    · exact ih

theorem covers_synchronize (fuel : Nat) : Covers (synchronize e fuel) ⊥ :=
  covers_bind fun _ => covers_bind fun _ => covers_syncIndex fuel bot_le

theorem late_buildAttempts : Asks Late (buildAttempts e) := by
  have attempt : ∀ row, Asks Late (buildAttempt e row) := by
    intro row
    refine late_bind asks_perform fun held => ?_
    split
    · exact asks_pure
    refine late_bind asks_perform fun cursor => late_bind asks_perform fun blocked => ?_
    split
    · exact asks_pure
    · refine late_bind asks_fresh fun id => late_bind asks_perform fun parent => ?_
      refine late_bind asks_perform fun _ => ?_
      exact late_bind asks_perform fun _ => asks_pure
  have all : ∀ rows built, Asks Late (buildRows e rows built) := by
    intro rows
    induction rows with
    | nil => exact fun built => asks_pure
    | cons row rows ih => exact fun built => late_bind (attempt row) fun one => ih _
  exact late_bind asks_perform fun rows => all rows false

theorem planned_syncIndex (fuel : Nat) {f : Unit → Program mls β} (rest : ∀ u, Asks Planned (f u)) :
    Asks Planned (syncIndex e fuel after >>= f) := by
  induction fuel generalizing after with
  | zero => exact asks_fail
  | succ fuel ih =>
    rw [syncIndex_succ, Base.Progress.bind_assoc]
    refine planned_read (fun early id response k told => ?_) fun response => ?_
    · cases after with
      | none => exact (covers_indexPage le_rfl told).bind
      | some after => cases early
    unfold indexPage
    split
    · rename_i rooms more
      split
      · exact asks_fail
      rw [Base.Progress.bind_assoc]
      refine planned_of_late late_syncHeads fun last => ?_
      cases more with
      | false => exact rest ()
      | true => exact ih
    · exact asks_fail

theorem planned_synchronize {f : Unit → Program mls β} (rest : ∀ u, Asks Planned (f u)) :
    Asks Planned (synchronize e fuel >>= f) := by
  have pass : Covers (syncIndex e fuel none >>= f) ⊥ := (covers_syncIndex fuel bot_le).bind
  unfold synchronize
  rw [Base.Progress.bind_assoc]
  refine planned_of_covers (fragile_fetchWelcomes fuel) (fun _ => ?_) fun _ => ?_
  · rw [Base.Progress.bind_assoc]
    exact covers_bind fun _ => pass
  · rw [Base.Progress.bind_assoc]
    exact planned_of_covers (fragile_processWelcomes fuel) (fun _ => pass)
      fun _ => planned_syncIndex fuel rest

theorem planned_driveInner (fuel : Nat) : Asks Planned (driveInner e fuel) := by
  suffices rounds : ∀ n, Asks Planned (driveRounds e fuel n) from rounds 4
  intro n
  induction n with
  | zero => exact asks_pure
  | succ n ih =>
    refine planned_of_covers (fragile_sendOutbox fuel) (fun _ => (covers_synchronize fuel).bind)
      fun _ => planned_synchronize fun _ => ?_
    refine planned_of_late late_buildAttempts fun built => ?_
    split
    · exact ih
    · exact asks_pure

theorem covers_driveInner (fuel : Nat) : Covers (driveInner e fuel) ⊥ :=
  covers_bind fun _ => (covers_synchronize fuel).bind

end Plans

end Grotto.Client.Passes
