/- GID: Grotto/Client/Termination
   digest: Whatever a relay answers, synchronization makes finitely many requests and returns. -/

import Grotto.Base.Execution
import Grotto.Client.Machine
import Grotto.Client.Reruns
import Grotto.Client.Passes
import Mathlib.Data.Fintype.EquivFin
import Mathlib.Data.Set.Finite.List

set_option autoImplicit false

namespace Grotto.Client.Termination

open Format.Varint (Bytes)
open Format.Postcard (Octets)
open Protocol.Records Protocol.Wire
open Base.Program Base.Program.Local
open Base.Execution
open Library Tables Calls
open Effects Habits Delivery Changes Frames
open Actions Machine Passes

variable {mls : Mls} {α β : Type} {e : Engine mls}

section Calm

variable {V : Type} {view : Store mls → V}

/-- The computation has no loop to exhaust, and the tables look as before. -/
def Calm (view : Store mls → V) (m : Service mls α) : Prop :=
  ∀ s, m.Ends s fun r t => r ≠ .error .exhausted ∧ view t.store = view s.store

theorem ok_real (a : α) : (.ok a : Except Error α) ≠ .error .exhausted := by
  intro impossible
  cases impossible

theorem error_real {error : Error} (other : error ≠ .exhausted) :
    (.error error : Except Error α) ≠ .error .exhausted :=
  fun same => other (Except.error.inj same)

def calmly (view : Store mls → V) : Manner mls where
  moves s t := view t.store = view s.store
  raises error := error ≠ .exhausted
  stay _ := rfl
  join _ _ _ first rest := rest.trans first
  counts _ _ := rfl
  caches _ _ := rfl
  storage _ := by simp
  library _ := by simp
  encoding := by simp
  decoding := by simp
  texts _ _ := by simp

theorem calm_of_minds {m : Service mls α} (minds : m.Minds (calmly view).toHabit) : Calm view m :=
  fun s => (minds s).mono fun _ _ ended => ⟨fun failed => ended.2 _ failed rfl, ended.1⟩

theorem calmly_stores (s t : Session mls) (same : t.store = s.store) : (calmly view).moves s t :=
  congrArg view same

end Calm

variable {event : Event}

section Services

variable {welcome : WelcomeDelivery}

def keys (s : Store mls) : List Nat := s.welcomeInbox.map WelcomeInboxRow.cursor

theorem keys_setWelcomeState (s : Store mls) (cursor : Nat) (state : ProcessingState) :
    keys (s.setWelcomeState cursor state) = keys s := by
  unfold keys Store.setWelcomeState
  rw [List.map_map]
  refine List.map_congr_left fun row _ => ?_
  rw [Function.comp_apply]
  split
  · rfl
  · rfl

theorem quiet_keys : Quiet (calmly keys : Manner mls) := fun _ _ same =>
  congrArg (List.map WelcomeInboxRow.cursor) same

theorem keys_upsertRoom {s t : Store mls} {room : RoomId} {name origin : String}
    (saved : s.upsertRoom room name origin = .ok t) : keys t = keys s := by
  rw [upsertRoom_rest saved]
  rfl

theorem calm_query {read : Store mls → α} : Calm keys (query read) := calm_of_minds minds_query

theorem minds_applyEvent : (applyEvent e event).Minds (calmly keys).toHabit := by
  refine minds_query.bind fun current => ?_
  split
  · exact minds_fail (by simp [calmly])
  refine minds_query.bind fun own => ?_
  have settling : (settleEvent e event own).Minds (calmly keys).toHabit :=
    minds_atomic calmly_stores ((minds_effect quiet_keys (by simp [calmly])).bind fun _ =>
      minds_finishEvent quiet_keys)
  refine minds_attempt settling fun r raised => ?_
  split
  · exact (minds_onlyIf minds_call).bind fun _ => minds_pure true
  · exact (minds_update fun s => quiet_keys s _ rfl).bind fun _ => minds_pure false
  · exact (minds_transaction calmly_stores (minds_finishEvent quiet_keys)).bind fun _ => minds_pure true
  · exact minds_fail (raised _ rfl)

theorem minds_verifyWelcome : (verifyWelcome e welcome).Minds (calmly keys).toHabit := by
  unfold verifyWelcome
  split
  · exact minds_fail (by simp [calmly])
  · refine minds_requireContact.bind fun card => ?_
    split
    · exact minds_pure ()
    · exact minds_fail (by simp [calmly])

theorem minds_joinWelcome {cursor : Nat} :
    (joinWelcome e cursor welcome).Minds (calmly keys).toHabit := by
  refine minds_atomic calmly_stores (minds_hasGroup.bind fun held => ?_)
  split
  · exact minds_fail (by simp [calmly])
  refine (minds_join fun s _ _ => quiet_keys s _ rfl).bind fun _ => ?_
  refine Minds.bind (minds_groupMut.bind fun _ => minds_pure _) fun present => ?_
  split
  · exact minds_fail (by simp [calmly])
  · exact (minds_execute fun s t placed =>
      quiet_keys s t (by rw [(insertCursor_rest placed).2])).bind fun _ =>
      (minds_execute fun _ _ => keys_upsertRoom).bind fun _ =>
        (minds_update fun _ => keys_setWelcomeState _ _ _).bind fun _ => minds_journal quiet_keys

theorem calm_processWelcome {after : Nat} : Calm keys (processWelcome e after) := by
  refine calm_of_minds (minds_query.bind fun found => ?_)
  have blocks : ∀ cursor, (do
      update fun s => s.setWelcomeState cursor .blocked
      pure (some cursor) : Service mls (Option Nat)).Minds (calmly keys).toHabit := fun cursor =>
    (minds_update fun _ => keys_setWelcomeState _ _ _).bind fun _ => minds_pure _
  split
  · exact minds_pure none
  refine minds_decoded.bind fun welcome => minds_attempt minds_verifyWelcome fun r _ => ?_
  cases r with
  | error _ => exact blocks _
  | ok _ =>
    refine minds_attempt minds_joinWelcome fun r _ => ?_
    cases r with
    | error _ => exact blocks _
    | ok _ => exact minds_pure _

end Services

variable {welcomes : List WelcomeDelivery}

section Yields

variable {s : Session mls}

theorem yields_transaction {body : Service mls α} (post : α → Store mls → Prop)
    (yields : ∀ t, body.Yields t fun a u => post a u.store) :
    (transaction body).Yields s fun a u => post a u.store := by
  intro here a u result
  rcases opened : begin here s with ⟨error | _, t⟩
  · unfold transaction at result
    rw [opened] at result
    cases (Prod.mk.inj result).1
  rcases closed : (do let value ← body; commit; pure value : Service mls α) here t with ⟨error | b, v⟩
  · rw [transaction_error opened closed] at result
    cases (Prod.mk.inj result).1
  rw [transaction_ok opened closed] at result
  obtain ⟨same, rfl⟩ := Prod.mk.inj result
  obtain rfl := Except.ok.inj same
  obtain ⟨before, keeps, reached⟩ := gives_committed (yields t).gives b v closed
  rw [keeps.store]
  exact reached

theorem yields_atomic {operation : Service mls α} (post : α → Store mls → Prop)
    (yields : ∀ t, operation.Yields t fun a u => post a u.store) :
    (atomic operation).Yields s fun a u => post a u.store := by
  intro here a u result
  obtain ⟨groups, same⟩ := atomic_eq operation here s
  rw [same] at result
  obtain ⟨value, rfl⟩ := Prod.mk.inj result
  exact yields_transaction post yields here a (transaction operation here s).2 (Prod.ext value rfl)

theorem welcomeRows_above {rows : List WelcomeInboxRow} {last final : Nat}
    (listed : WelcomeRows e last welcomes rows final) (nonempty : welcomes ≠ []) :
    last < final ∧ final ≤ i64Max := by
  induction listed with
  | nil => exact absurd rfl nonempty
  | @cons last final welcome record welcomes rows above mine encoded bound rest ih =>
    cases rest with
    | nil => exact ⟨above, bound⟩
    | cons above' mine' encoded' bound' rest' =>
      obtain ⟨further, fits⟩ := ih (List.cons_ne_nil _ _)
      exact ⟨above.trans further, fits⟩

theorem yields_saveWelcomes {cursor : Nat} (nonempty : welcomes ≠ []) :
    (saveWelcomes e cursor welcomes).Yields s fun _ t =>
      cursor < t.store.welcomeCursor ∧ t.store.welcomeCursor ≤ i64Max := by
  refine Yields.bind yields_admitNewData fun _ t _ => yields_transaction
    (fun _ store => cursor < store.welcomeCursor ∧ store.welcomeCursor ≤ i64Max) fun u => ?_
  refine Yields.bind (yields_insertWelcomes welcomes cursor) fun last v inserted => ?_
  obtain ⟨rows, listed, -⟩ := inserted
  refine yields_update.mono fun _ x moved => ?_
  rw [moved.1]
  exact welcomeRows_above listed nonempty

theorem yields_processWelcome {after : Nat} : (processWelcome e after).Yields s fun next t =>
    ∀ cursor, next = some cursor →
      after < cursor ∧ cursor ∈ keys s.store ∧ keys t.store = keys s.store := by
  have looks : (processWelcome e after).Yields s fun next _ =>
      ∀ cursor, next = some cursor → after < cursor ∧ cursor ∈ keys s.store := by
    refine Yields.bind yields_query fun found t reached => ?_
    obtain ⟨looked, -⟩ := reached
    split
    · exact yields_pure fun cursor impossible => by cases impossible
    rename_i row
    obtain ⟨present, above, -⟩ := nextWelcome_some looked.symm
    have placed : ∀ cursor, some row.cursor = some cursor → after < cursor ∧ cursor ∈ keys s.store := by
      intro cursor same
      obtain rfl := Option.some.inj same
      exact ⟨above, List.mem_map_of_mem present⟩
    have blocks : ∀ u : Session mls, (do
        update fun s => s.setWelcomeState row.cursor .blocked
        pure (some row.cursor) : Service mls (Option Nat)).Yields u fun next _ =>
        ∀ cursor, next = some cursor → after < cursor ∧ cursor ∈ keys s.store := fun u =>
      Yields.bind yields_update fun _ _ _ => yields_pure placed
    refine Yields.bind yields_decoded fun welcome u _ => ?_
    refine yields_attempt (minds_verifyWelcome u) fun r v _ => ?_
    cases r with
    | error _ => exact blocks v
    | ok _ =>
      refine yields_attempt (minds_joinWelcome v) fun r x _ => ?_
      cases r with
      | error _ => exact blocks x
      | ok _ => exact yields_pure placed
  intro here next t result cursor same
  have kept := (calm_processWelcome : Calm keys (processWelcome e after)) s here
  rw [result] at kept
  obtain ⟨above, present⟩ := looks here next t result cursor same
  exact ⟨above, present, kept.2⟩

theorem yields_finishEvent_cursor {state : ProcessingState} :
    (finishEvent e event state).Yields s fun _ t =>
      cursorOf t.store event.operation.room = event.operation.parent.toNat + 1 := by
  refine yields_finishEvent.mono fun _ t finished => ?_
  unfold cursorOf
  rw [journals_rest finished.2.2]
  simp [Store.setCursor]

theorem yields_applyEvent : (applyEvent e event).Yields s fun settled t =>
    settled = true → cursorOf t.store event.operation.room = event.operation.parent.toNat + 1 := by
  refine Yields.bind yields_query fun current t _ => ?_
  split
  · exact yields_fail
  refine Yields.bind yields_query fun own u _ => ?_
  let moved : Store mls → Prop := fun store =>
    cursorOf store event.operation.room = event.operation.parent.toNat + 1
  have settling : (settleEvent e event own).Yields u fun _ v => moved v.store := by
    refine yields_atomic (fun _ store => moved store) fun v => ?_
    have effected : (effect e event own).Yields v fun _ _ => True := fun _ _ _ _ => trivial
    exact effected.bind fun _ _ _ => yields_finishEvent_cursor
  refine yields_attempt settling.ends fun r v settled => ?_
  split
  · have notified : (onlyIf (event.sender = e.user ∧ event.operation.contentType = .application)
        call : Service mls Unit).Yields v fun _ x => Keeps v x := by
      unfold onlyIf
      split
      · exact ends_call.yields
      · exact yields_pure (Keeps.refl v)
    refine notified.bind fun _ x kept => yields_pure fun _ => ?_
    rw [kept.store]
    exact settled () rfl
  · exact Yields.bind yields_update fun _ _ _ => yields_pure fun impossible => by cases impossible
  · refine Yields.bind (yields_transaction (fun _ store => moved store) fun x =>
      yields_finishEvent_cursor) fun _ x reached => ?_
    exact yields_pure fun _ => reached
  · exact yields_fail

end Yields

variable {message : Bytes} {fuel : Nat} {after : Option RoomId}

section Rounds

def isDeferring : Option Response → Bool
  | some (.rejected .overloaded) | some (.rejected .internal) => true
  | _ => false

abbrev Meeting (mls : Mls) := World (Surroundings mls) MessageId (MessageId × Request) Response

abbrev Standing (mls : Mls) := Config (Session mls) (MessageId × Request) Response

/-- `synchronize` and its parts, with fuel, end against `w` or meet a read that is never answered. -/
abbrev Concludes (w : Meeting mls) (p : Nat → Program mls α) (c : Standing mls) : Prop :=
  Halts w isDeferring Error.exhausted p c fun _ _ => True

variable {w : Meeting mls} {c : Standing mls}

theorem Concludes.bind {p : Nat → Program mls α} {f : Nat → α → Program mls β}
    (first : Concludes w p c) (rest : ∀ a d, Concludes w (fun fuel => f fuel a) d) :
    Concludes w (fun fuel => p fuel >>= f fuel) c :=
  Halts.bind first (fun a d _ => rest a d) fun _ _ _ => trivial

theorem concludes_pure (a : α) : Concludes w (fun _ => pure a) c := halts_pure trivial

theorem concludes_text (reason : String) :
    Concludes w (fun _ => (Prog.fail (.text reason) : Program mls α)) c :=
  halts_fail (by simp) trivial

theorem concludes_perform {V : Type} {view : Store mls → V} {m : Service mls α} (calm : Calm view m) :
    Concludes w (fun _ => Prog.perform m) c :=
  halts_perform fun here => (calm c.state here).1

section Read

variable {id : MessageId} {request : Request}

def told (w : Meeting mls) (c : Standing mls) (query : MessageId × Request) : Standing mls :=
  { c with past := c.past ++ [(query, w.answer c.past query)] }

theorem run_wireRequest
    (encodes : encodeMessage (ClientMessage.delivery id request) = .ok message) :
    run w (wireRequest id request) c = ((w.answer c.past (id, request)).elim (.error .disconnected) .ok,
      told w c (id, request)) := by
  unfold wireRequest told
  rw [encodes]
  cases answered : w.answer c.past (id, request) with
  | none => simp only [Prog.request, run, answered, Option.elim]
  | some response => simp only [Prog.request, run, answered, Option.elim]

theorem isDeferring_iff {response : Response} : isDeferring (some response) = true ↔
    response = .rejected .overloaded ∨ response = .rejected .internal := by
  unfold isDeferring
  split
  · simp_all
  · simp_all
  · simp_all

theorem run_readAgain_idle (fuel : Nat)
    (encodes : encodeMessage (ClientMessage.delivery id request) = .ok message)
    (idle : isDeferring (w.answer c.past (id, request)) = true) :
    run w (readAgain id request (fuel + 1)) c =
      run w (readAgain id request fuel) (told w c (id, request)) := by
  have asked := run_wireRequest (w := w) (c := c) encodes
  rw [readAgain_succ]
  cases answered : w.answer c.past (id, request) with
  | none =>
    rw [answered] at idle
    cases idle
  | some response =>
    rw [answered] at asked idle
    rw [run_bind_of_ok asked]
    rcases isDeferring_iff.mp idle with rfl | rfl
    · rfl
    · rfl

theorem run_readAgain_busy (fuel : Nat)
    (encodes : encodeMessage (ClientMessage.delivery id request) = .ok message)
    (busy : isDeferring (w.answer c.past (id, request)) = false) :
    run w (readAgain id request (fuel + 1)) c =
      ((w.answer c.past (id, request)).elim (.error .disconnected) .ok, told w c (id, request)) := by
  have asked := run_wireRequest (w := w) (c := c) encodes
  rw [readAgain_succ]
  cases given : w.answer c.past (id, request) with
  | none =>
    rw [given] at asked
    exact run_bind_of_error asked
  | some response =>
    rw [given] at asked busy
    rw [run_bind_of_ok asked]
    unfold answered
    split
    · cases busy
    · cases busy
    · rfl

theorem readAgain_starves (n : Nat) (plenty : n ≤ fuel)
    (encodes : encodeMessage (ClientMessage.delivery id request) = .ok message)
    (idles : ∀ k, isDeferring (w.answer (w.repeated c.past (id, request) k) (id, request)) = true) :
    w.repeated c.past (id, request) n <+: (run w (readAgain id request fuel) c).2.past := by
  induction n generalizing c fuel with
  | zero => exact run_past w _ c
  | succ n ih =>
    obtain ⟨less, rfl⟩ := Nat.exists_eq_add_of_le' plenty
    rw [World.repeated_succ, ← Nat.add_assoc, run_readAgain_idle (less + n) encodes (idles 0)]
    refine ih (c := told w c (id, request)) (Nat.le_add_left n less) fun k => ?_
    have later := idles (k + 1)
    rw [World.repeated_succ] at later
    exact later

theorem readAgain_answered (n : Nat)
    (encodes : encodeMessage (ClientMessage.delivery id request) = .ok message)
    (busy : isDeferring (w.answer (w.repeated c.past (id, request) n) (id, request)) = false) :
    Concludes w (fun fuel => readAgain id request fuel) c := by
  have now : ∀ c : Standing mls, isDeferring (w.answer c.past (id, request)) = false →
      Concludes w (fun fuel => readAgain id request fuel) c := by
    intro c busy
    refine halts_succ.mp (halts_of_run (fun fuel => run_readAgain_busy fuel encodes busy) ?_ trivial)
    cases w.answer c.past (id, request) with
    | none => exact error_real (by simp)
    | some response => exact ok_real response
  induction n generalizing c with
  | zero => exact now c busy
  | succ n ih =>
    cases first : isDeferring (w.answer c.past (id, request)) with
    | false => exact now c first
    | true =>
      rw [World.repeated_succ] at busy
      refine halts_succ.mp ((ih busy : Concludes w _ (told w c (id, request))).of_steps (·) 0 ?_ ?_ ?_)
      · exact fun _ _ => (Nat.le_add_left _ _).trans
      · exact fun fuel _ => run_readAgain_idle fuel encodes first
      · exact List.prefix_append _ _

theorem concludes_read : Concludes w (fun fuel => read fuel request) c := by
  refine Concludes.bind (halts_fresh (by simp)) fun id d => ?_
  cases encodes : encodeMessage (ClientMessage.delivery id request) with
  | error fault =>
    refine halts_succ.mp (halts_of_run (r := .error .encode) (d := d) (fun fuel => ?_)
      (error_real (by simp)) trivial)
    rw [readAgain_succ]
    refine run_bind_of_error ?_
    unfold wireRequest
    rw [encodes]
    rfl
  | ok message =>
    by_cases idles : ∀ k,
        isDeferring (w.answer (w.repeated d.past (id, request) k) (id, request)) = true
    · refine .inr ⟨d.past, (id, request), List.prefix_rfl, idles, fun n => ⟨n, fun fuel plenty => ?_⟩⟩
      exact readAgain_starves n plenty encodes idles
    · obtain ⟨n, busy⟩ := not_forall.mp idles
      exact readAgain_answered n encodes (Bool.eq_false_of_not_eq_true busy)

theorem leads_read {s : Session mls} :
    Leads (read fuel request : Program mls Response) s fun _ t => t = s := by
  refine leads_fresh.bind fun id t same => ?_
  subst same
  induction fuel with
  | zero => exact leads_fail
  | succ fuel ih =>
    rw [readAgain_succ]
    have asks : Leads (wireRequest id request : Program mls Response) t fun _ u => u = t := by
      unfold wireRequest
      split
      · exact leads_fail
      · exact leads_request
    refine asks.bind fun response u same => ?_
    subst same
    rcases answered_cases id request fuel response with retried | final
    · rw [retried]
      exact ih
    · rw [final]
      exact leads_pure rfl

end Read

section Welcomes

def takeWelcomePage (e : Engine mls) (cursor : Nat) : Response → Program mls (Option Unit)
  | .welcomes after welcomes more =>
    if after.toNat ≠ cursor ∨ (more ∧ welcomes.isEmpty) then
      Prog.fail (.text "invalid Welcome page cursor")
    else if welcomes.isEmpty then pure none
    else do
      Prog.perform (saveWelcomes e cursor welcomes)
      if more then pure (some ()) else pure none
  | _ => Prog.fail (.text "invalid Welcome recovery response")

def welcomeRound (e : Engine mls) (fuel : Nat) : Program mls (Option Unit) := do
  let cursor ← Prog.perform (query fun s => s.welcomeCursor)
  let response ← read (fuel + 1) (.fetchWelcomes (UInt64.ofNat cursor))
  takeWelcomePage e cursor response

theorem fetchWelcomes_succ (fuel : Nat) : fetchWelcomes e (fuel + 1) =
    welcomeRound e fuel >>= again fun _ => fetchWelcomes e fuel := by
  unfold welcomeRound
  rw [Base.Progress.bind_assoc]
  refine congrArg (_ >>= ·) (funext fun cursor => ?_)
  rw [Base.Progress.bind_assoc]
  refine congrArg (_ >>= ·) (funext fun response => ?_)
  cases response with
  | welcomes after welcomes more =>
    simp only [takeWelcomePage]
    split
    · rfl
    split
    · rfl
    rw [Base.Progress.bind_assoc]
    refine congrArg (_ >>= ·) (funext fun _ => ?_)
    split
    · rfl
    · rfl
  | _ => rfl

theorem fetchWelcomes_advances (e : Engine mls) :
    Advances (fun fuel (_ : Unit) => fetchWelcomes e fuel) (fun fuel _ => welcomeRound e fuel)
      fun old new => old.2.store.welcomeCursor < new.2.store.welcomeCursor ∧
        new.2.store.welcomeCursor ≤ i64Max where
  unfolds fuel _ := fetchWelcomes_succ fuel
  nearer fuel _ s := by
    refine (leads_perform yields_query).bind fun cursor t reached => ?_
    obtain ⟨rfl, keeps⟩ := reached
    refine leads_read.bind fun response u same => ?_
    unfold takeWelcomePage
    split
    · split
      · exact leads_fail
      split
      · exact leads_pure fun _ impossible => by cases impossible
      rename_i nonempty
      refine (leads_perform (yields_saveWelcomes ?_)).bind fun _ v moved => ?_
      · rintro rfl
        exact nonempty rfl
      · split
        · exact leads_pure fun _ _ => moved
        · exact leads_pure fun _ _ => moved
    · exact leads_fail
  founded := by
    refine Subrelation.wf ?_ (measure fun place : Unit × Session mls =>
      i64Max - place.2.store.welcomeCursor).wf
    intro new old closer
    exact Nat.sub_lt_sub_left (closer.1.trans_le closer.2) closer.1

theorem minds_insertWelcomes {last : Nat} :
    (insertWelcomes e welcomes last).Minds (calmly fun _ => ()).toHabit := by
  induction welcomes generalizing last with
  | nil => exact minds_pure last
  | cons welcome welcomes ih =>
    unfold insertWelcomes
    split
    · exact minds_fail (by simp [calmly])
    · exact minds_encoded.bind fun record => minds_bindU64.bind fun cursor =>
        (minds_execute fun _ _ _ => rfl).bind fun _ => ih

theorem concludes_fetchWelcomes : Concludes w (fetchWelcomes e) c := by
  refine (fetchWelcomes_advances e).loop_halts (fun _ d => ?_) () c
  refine (concludes_perform calm_query).bind fun cursor d => ?_
  refine Concludes.bind (halts_succ.mpr concludes_read) fun response d => ?_
  unfold takeWelcomePage
  cases response with
  | welcomes after welcomes more =>
    simp only
    split
    · exact concludes_text _
    split
    · exact concludes_pure none
    have saved : Calm (fun _ => ()) (saveWelcomes e cursor welcomes) :=
      calm_of_minds (minds_admitNewData.bind fun _ => minds_transaction calmly_stores
        (minds_insertWelcomes.bind fun _ => minds_update fun _ => rfl))
    refine (concludes_perform saved).bind fun _ d => ?_
    · split
      · exact concludes_pure _
      · exact concludes_pure _
  | _ => exact concludes_text _

theorem processWelcomes_advances (e : Engine mls) :
    Advances (processWelcomes e) (fun _ after => Prog.perform (processWelcome e after))
      fun old new => old.1 < new.1 ∧ new.1 ∈ keys old.2.store ∧
        keys new.2.store = keys old.2.store where
  unfolds fuel after := by
    refine congrArg (_ >>= ·) (funext fun next => ?_)
    cases next with
    | none => rfl
    | some cursor => rfl
  nearer _ after s := leads_perform yields_processWelcome
  founded := by
    refine Subrelation.wf ?_ (measure fun place : Nat × Session mls =>
      (keys place.2.store).sum - place.1).wf
    intro new old closer
    obtain ⟨above, present, same⟩ := closer
    change (keys new.2.store).sum - new.1 < (keys old.2.store).sum - old.1
    rw [same]
    exact Nat.sub_lt_sub_left (above.trans_le (List.le_sum_of_mem present)) above

theorem concludes_processWelcomes (after : Nat) :
    Concludes w (fun fuel => processWelcomes e fuel after) c :=
  (processWelcomes_advances e).loop_halts (fun _ _ => concludes_perform calm_processWelcome) after c

end Welcomes

section Rooms

variable {room : RoomId}

/-- The events of a page follow each other from `expected` on, in one room. -/
def Contiguous (room : RoomId) : Nat → List Event → Prop
  | _, [] => True
  | expected, event :: events =>
    event.operation.room = room ∧ event.operation.parent.toNat = expected ∧
      Contiguous room (expected + 1) events

theorem leads_receivePage {s : Session mls} (expected : Nat) (events : List Event) :
    Leads (receivePage room expected events : Program mls Unit) s fun _ _ =>
      Contiguous room expected events := by
  induction events generalizing s expected with
  | nil => exact leads_pure trivial
  | cons event events ih =>
    unfold receivePage
    split
    · exact leads_fail
    rename_i placed
    obtain ⟨here, next⟩ := not_or.mp placed
    have stored : (receive event : Service mls Unit).Yields s fun _ _ => True :=
      fun _ _ _ _ => trivial
    refine (leads_perform stored).bind fun _ t _ => (ih (expected + 1)).mono fun _ _ rest => ?_
    exact ⟨not_not.mp here, not_not.mp next, rest⟩

theorem leads_applyPage {s : Session mls} {expected : Nat} {events : List Event}
    (contiguous : Contiguous room expected events) (nonempty : events ≠ []) :
    Leads (applyPage e events) s fun whole t =>
      whole = true → cursorOf t.store room = expected + events.length := by
  induction events generalizing s expected with
  | nil => exact absurd rfl nonempty
  | cons event events ih =>
    obtain ⟨rfl, placed, rest⟩ := contiguous
    refine (leads_perform yields_applyEvent).bind fun settled t moved => ?_
    split
    · rename_i done
      cases events with
      | nil =>
        refine leads_pure fun _ => ?_
        rw [moved done, placed]
        rfl
      | cons second events =>
        refine (ih rest (List.cons_ne_nil _ _)).mono fun whole u reached all => ?_
        rw [reached all, List.length_cons (a := event)]
        omega
    · exact leads_pure fun impossible => by cases impossible

def eventPage (e : Engine mls) (room : RoomId) (current : Nat) : Response → Program mls (Option Unit)
  | .roomEvents answered after events _ =>
    if answered ≠ room ∨ after.toNat ≠ current ∨ events.isEmpty then
      Prog.fail (.text "room history omitted a required sequence")
    else do
      receivePage room current events
      if ← applyPage e events then pure (some ()) else pure none
  | _ => Prog.fail (.text "invalid room recovery response")

def eventRound (e : Engine mls) (room : RoomId) (head fuel : Nat) : Program mls (Option Unit) := do
  if ¬(← Prog.perform (cursor room)) < head then pure none
  else do
    let current ← Prog.perform (cursor room)
    let response ← read (fuel + 1) (.fetchRoomEvents room (UInt64.ofNat current))
    eventPage e room current response

theorem syncRoom_succ (head fuel : Nat) : syncRoom e room head (fuel + 1) =
    eventRound e room head fuel >>= again fun _ => syncRoom e room head fuel := by
  unfold eventRound
  rw [Base.Progress.bind_assoc]
  refine congrArg (_ >>= ·) (funext fun current => ?_)
  split
  · rfl
  rw [Base.Progress.bind_assoc]
  refine congrArg (_ >>= ·) (funext fun current => ?_)
  rw [Base.Progress.bind_assoc]
  refine congrArg (_ >>= ·) (funext fun response => ?_)
  cases response with
  | roomEvents answered after events more =>
    simp only [eventPage]
    split
    · rfl
    rw [Base.Progress.bind_assoc]
    refine congrArg (_ >>= ·) (funext fun _ => ?_)
    rw [Base.Progress.bind_assoc]
    refine congrArg (_ >>= ·) (funext fun whole => ?_)
    split
    · rfl
    · rfl
  | _ => rfl

theorem syncRoom_advances (e : Engine mls) (room : RoomId) (head : Nat) :
    Advances (fun fuel (_ : Unit) => syncRoom e room head fuel) (fun fuel _ => eventRound e room head fuel)
      fun old new => cursorOf old.2.store room < cursorOf new.2.store room ∧
        cursorOf old.2.store room < head where
  unfolds fuel _ := syncRoom_succ head fuel
  nearer fuel _ s := by
    refine (leads_perform yields_query).bind fun first t reached => ?_
    obtain ⟨rfl, keeps⟩ := reached
    split
    · exact leads_pure fun _ impossible => by cases impossible
    rename_i behind
    refine (leads_perform yields_query).bind fun current u reached => ?_
    obtain ⟨rfl, -⟩ := reached
    refine leads_read.bind fun response v same => ?_
    unfold eventPage
    split
    · rename_i answered after events more
      split
      · exact leads_fail
      rename_i valid
      have nonempty : events ≠ [] := by
        rintro rfl
        exact valid (.inr (.inr rfl))
      refine (leads_receivePage _ events).bind fun _ x contiguous => ?_
      refine (leads_applyPage contiguous nonempty).bind fun whole y moved => ?_
      split
      · rename_i all
        refine leads_pure fun _ _ => ⟨?_, not_not.mp behind⟩
        rw [moved all, keeps.store]
        exact Nat.lt_add_of_pos_right (List.length_pos_iff.mpr nonempty)
      · exact leads_pure fun _ impossible => by cases impossible
    · exact leads_fail
  founded := by
    refine Subrelation.wf ?_ (measure fun place : Unit × Session mls =>
      head - cursorOf place.2.store room).wf
    intro new old closer
    exact Nat.sub_lt_sub_left closer.2 closer.1

theorem concludes_receivePage (expected : Nat) (events : List Event) :
    Concludes w (fun _ => receivePage room expected events) c := by
  induction events generalizing expected c with
  | nil => exact concludes_pure ()
  | cons event events ih =>
    unfold receivePage
    split
    · exact concludes_text _
    · exact (concludes_perform (calm_of_minds (minds_receive fun s _ t inserted =>
        quiet_keys s t (by rw [insertInbox_rest inserted])))).bind fun _ _ => ih (expected + 1)

theorem concludes_applyPage (events : List Event) : Concludes w (fun _ => applyPage e events) c := by
  induction events generalizing c with
  | nil => exact concludes_pure true
  | cons event events ih =>
    refine (concludes_perform (calm_of_minds minds_applyEvent)).bind fun settled d => ?_
    split
    · exact ih
    · exact concludes_pure false

theorem concludes_syncRoom (head : Nat) : Concludes w (syncRoom e room head) c := by
  refine (syncRoom_advances e room head).loop_halts (fun _ d => ?_) () c
  refine (concludes_perform calm_query).bind fun first d => ?_
  split
  · exact concludes_pure none
  refine (concludes_perform calm_query).bind fun current d => ?_
  refine Concludes.bind (halts_succ.mpr concludes_read) fun response d => ?_
  unfold eventPage
  cases response with
  | roomEvents answered after events more =>
    simp only
    split
    · exact concludes_text _
    refine (concludes_receivePage current events).bind fun _ d => ?_
    refine (concludes_applyPage events).bind fun whole d => ?_
    split
    · exact concludes_pure _
    · exact concludes_pure _
  | _ => exact concludes_text _

end Rooms

section Index

instance : Finite RoomId := by
  have bytes : Finite UInt8 := Finite.of_injective UInt8.toFin fun _ _ => UInt8.toFin_inj.mp
  have lists : Finite {l : List UInt8 | l.length = 16} := (List.finite_length_eq UInt8 16).to_subtype
  refine Finite.of_injective (fun room : RoomId =>
    (⟨room.bytes.toList, room.bytes.length_eq⟩ : {l : List UInt8 | l.length = 16})) ?_
  intro a b same
  cases a
  cases b
  exact congrArg RoomId.mk (Octets.toList_injective (congrArg Subtype.val same))

theorem upTo_lt {room : RoomId} (ordered : ¬(after.any fun r => decide (room ≤ r)) = true) :
    upTo after < upTo (some room) := by
  cases after with
  | none => exact WithTop.coe_lt_coe.mpr (WithBot.bot_lt_coe room)
  | some r =>
    rw [Option.any_some, decide_eq_true_eq, not_le] at ordered
    exact WithTop.coe_lt_coe.mpr (WithBot.coe_lt_coe.mpr ordered)

theorem leads_any {p : Program mls α} {s : Session mls} : Leads p s fun _ _ => True :=
  fun _ _ _ _ _ _ => trivial

theorem leads_syncHeads {s : Session mls} (heads : List RoomHead) :
    Leads (syncHeads e fuel after heads) s fun last _ =>
      upTo after ≤ upTo last ∧ (heads ≠ [] → upTo after < upTo last) := by
  induction heads generalizing s after with
  | nil => exact leads_pure ⟨le_rfl, fun impossible => absurd rfl impossible⟩
  | cons head heads ih =>
    have onward : ∀ {t : Session mls}, upTo after < upTo (some head.room) →
        Leads (syncHeads e fuel (some head.room) heads) t fun last _ =>
          upTo after ≤ upTo last ∧ (head :: heads ≠ [] → upTo after < upTo last) :=
      fun above => ih.mono fun last _ reached =>
        ⟨(above.trans_le reached.1).le, fun _ => above.trans_le reached.1⟩
    unfold syncHeads
    split
    · exact leads_fail
    rename_i ordered
    refine leads_any.bind fun current t _ => ?_
    split
    · exact leads_fail
    refine leads_any.bind fun _ t _ => leads_any.bind fun busy t _ => ?_
    split
    · exact onward (upTo_lt ordered)
    refine leads_any.bind fun held t _ => ?_
    split
    · exact onward (upTo_lt ordered)
    · exact leads_any.bind fun _ t _ => onward (upTo_lt ordered)

def headPage (e : Engine mls) (fuel : Nat) (after : Option RoomId) :
    Response → Program mls (Option (Option RoomId))
  | .syncIndex rooms more =>
    if more ∧ rooms.isEmpty then Prog.fail (.text "empty continuing room index")
    else do
      let last ← syncHeads e (fuel + 1) after rooms
      if more then pure (some last) else pure none
  | _ => Prog.fail (.text "invalid room index response")

def indexRound (e : Engine mls) (fuel : Nat) (after : Option RoomId) :
    Program mls (Option (Option RoomId)) :=
  read (fuel + 1) (.syncIndex after) >>= headPage e fuel after

theorem syncIndex_advances (e : Engine mls) :
    Advances (syncIndex e) (indexRound e) fun old new => upTo old.1 < upTo new.1 where
  unfolds fuel after := by
    unfold indexRound
    rw [syncIndex_succ, Base.Progress.bind_assoc]
    refine congrArg (_ >>= ·) (funext fun response => ?_)
    cases response with
    | syncIndex rooms more =>
      simp only [indexPage, headPage]
      split
      · rfl
      rw [Base.Progress.bind_assoc]
      refine congrArg (_ >>= ·) (funext fun last => ?_)
      split
      · rfl
      · rfl
    | _ => rfl
  nearer fuel after s := by
    refine leads_read.bind fun response t _ => ?_
    unfold headPage
    split
    · rename_i rooms more
      split
      · exact leads_fail
      rename_i continues
      refine (leads_syncHeads rooms).bind fun last u reached => ?_
      split
      · rename_i goes
        refine leads_pure fun next same => ?_
        obtain rfl := Option.some.inj same
        refine reached.2 ?_
        rintro rfl
        exact continues ⟨goes, rfl⟩
      · exact leads_pure fun _ impossible => by cases impossible
    · exact leads_fail
  founded := by
    have later : WellFounded fun a b : Reach => b < a := wellFounded_gt
    exact InvImage.wf (fun place : Option RoomId × Session mls => upTo place.1) later

theorem concludes_syncHeads (heads : List RoomHead) :
    Concludes w (fun fuel => syncHeads e fuel after heads) c := by
  induction heads generalizing after c with
  | nil => exact concludes_pure after
  | cons head heads ih =>
    unfold syncHeads
    split
    · exact concludes_text _
    refine (concludes_perform calm_query).bind fun current d => ?_
    split
    · exact concludes_text _
    refine (concludes_perform (calm_of_minds (minds_execute fun _ _ => keys_upsertRoom))).bind fun _ d => ?_
    refine (concludes_perform calm_query).bind fun busy d => ?_
    split
    · exact ih
    refine (concludes_perform (calm_of_minds minds_hasGroup : Calm keys _)).bind fun held d => ?_
    split
    · exact ih
    · exact (concludes_syncRoom _).bind fun _ _ => ih

theorem concludes_syncIndex (after : Option RoomId) :
    Concludes w (fun fuel => syncIndex e fuel after) c := by
  refine (syncIndex_advances e).loop_halts (fun after d => ?_) after c
  refine Concludes.bind (halts_succ.mpr concludes_read) fun response d => ?_
  unfold headPage
  cases response with
  | syncIndex rooms more =>
    simp only
    split
    · exact concludes_text _
    · refine Concludes.bind (halts_succ.mpr (concludes_syncHeads rooms)) fun last d => ?_
      split
      · exact concludes_pure _
      · exact concludes_pure _
  | _ => exact concludes_text _

end Index

/-- Whatever a relay answers, `synchronize` returns after finitely many requests, if each of its
reads is answered definitely in the end; every loop comes closer to its end in each of its rounds. -/
theorem synchronize_returns (e : Engine mls) (w : Meeting mls) (c : Standing mls)
    (attended : Attends w isDeferring (synchronize e) c) :
    Returns w Error.exhausted (synchronize e) c (fun _ _ => True) ∧
    Advances (fun fuel (_ : Unit) => fetchWelcomes e fuel) (fun fuel _ => welcomeRound e fuel)
      (fun old new => old.2.store.welcomeCursor < new.2.store.welcomeCursor ∧
        new.2.store.welcomeCursor ≤ i64Max) ∧
    Advances (processWelcomes e) (fun _ after => Prog.perform (processWelcome e after))
      (fun old new => old.1 < new.1 ∧ new.1 ∈ keys old.2.store ∧
        keys new.2.store = keys old.2.store) ∧
    Advances (syncIndex e) (indexRound e) (fun old new => upTo old.1 < upTo new.1) ∧
    ∀ room head, Advances (fun fuel (_ : Unit) => syncRoom e room head fuel)
      (fun fuel _ => eventRound e room head fuel)
      (fun old new => cursorOf old.2.store room < cursorOf new.2.store room ∧
        cursorOf old.2.store room < head) := by
  have concludes : Concludes w (synchronize e) c := by
    refine concludes_fetchWelcomes.bind fun _ d => ?_
    exact (concludes_processWelcomes 0).bind fun _ d => concludes_syncIndex none
  exact ⟨concludes.returns attended, fetchWelcomes_advances e, processWelcomes_advances e,
    syncIndex_advances e, syncRoom_advances e⟩

/-- A relay that is overloaded every other time and announces the same room again and again. -/
def insistent : Meeting Cleartext.mls where
  surroundings _ := calm
  drawn n := some (sampleId (UInt8.ofNat n))
  answer past query :=
    if past.length % 2 = 0 then some (.rejected .overloaded)
    else
      match query.2 with
      | .fetchWelcomes after => some (.welcomes after [] false)
      | _ => some (.syncIndex [⟨sampleRoom 9, "room", 5⟩] true)

theorem insistent_definite {past : List ((MessageId × Request) × Option Response)}
    {query : MessageId × Request} (odd : past.length % 2 = 1) :
    isDeferring (insistent.answer past query) = false := by
  simp only [insistent, odd]
  cases query.2 with
  | fetchWelcomes after => rfl
  | _ => rfl

theorem synchronize_returns_insistent :
    Returns insistent Error.exhausted (synchronize (clearEngine (sampleUser 1)))
      ⟨opened (Store.empty Cleartext.mls), 0, 0, []⟩ (fun _ _ => True) ∧
    (run insistent (synchronize (clearEngine (sampleUser 1)) 4)
      ⟨opened (Store.empty Cleartext.mls), 0, 0, []⟩).1 = .error (.text "room index is not ordered") := by
  refine ⟨(synchronize_returns (clearEngine (sampleUser 1)) insistent _ ?_).1, by decide +kernel⟩
  intro fuel past query answer _ _
  rcases Nat.mod_two_eq_zero_or_one past.length with even | odd
  · refine ⟨1, insistent_definite ?_⟩
    change (past ++ _).length % 2 = 1
    rw [List.length_append, List.length_singleton]
    omega
  · exact ⟨0, insistent_definite odd⟩

end Rounds

end Grotto.Client.Termination
