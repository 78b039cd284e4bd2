/- GID: Grotto/Base/Execution
   digest: Programs run against any surroundings, draws and answers, and the loops that end. -/

import Grotto.Base.Progress
import Mathlib.Data.List.Infix
import Mathlib.Order.WellFounded

set_option autoImplicit false

namespace Grotto.Base.Execution

open Program

variable {H S E I Q A α β X : Type}

/-- What a program meets: the surroundings of its `n`-th action, its `n`-th draw, and the answer to
a request after all that was exchanged before it. -/
structure World (H I Q A : Type) where
  surroundings : Nat → H
  drawn : Nat → Option I
  answer : List (Q × Option A) → Q → Option A

/-- The exchange once a query has been sent `n` more times. -/
def World.repeated (w : World H I Q A) (past : List (Q × Option A)) (query : Q) :
    Nat → List (Q × Option A)
  | 0 => past
  | n + 1 => w.repeated past query n ++ [(query, w.answer (w.repeated past query n) query)]

theorem World.repeated_succ (w : World H I Q A) (past : List (Q × Option A)) (query : Q) (n : Nat) :
    w.repeated past query (n + 1) =
      w.repeated (past ++ [(query, w.answer past query)]) query n := by
  induction n with
  | zero => rfl
  | succ n ih =>
    change w.repeated past query (n + 1) ++
      [(query, w.answer (w.repeated past query (n + 1)) query)] = _
    rw [ih]
    rfl

structure Config (S Q A : Type) where
  state : S
  actions : Nat
  draws : Nat
  past : List (Q × Option A)

/-- The whole run of a program: its result and where it stands then. -/
def run (w : World H I Q A) : Prog H S E I Q A α → Config S Q A → Except E α × Config S Q A
  | .done r, c => (r, c)
  | .act next rest, c =>
    run w (rest (w.surroundings c.actions) c.state)
      { c with state := next (w.surroundings c.actions) c.state, actions := c.actions + 1 }
  | .draw rest, c => run w (rest (w.drawn c.draws)) { c with draws := c.draws + 1 }
  | .ask query rest, c =>
    run w (rest (w.answer c.past query))
      { c with past := c.past ++ [(query, w.answer c.past query)] }

variable {w : World H I Q A} {c d : Config S Q A}

variable {f : α → Prog H S E I Q A β} {a : α} {error : E}

section Runs

variable {p : Prog H S E I Q A α}

theorem run_bind (p : Prog H S E I Q A α) : run w (p >>= f) c =
    match run w p c with
    | (.ok a, d) => run w (f a) d
    | (.error error, d) => (.error error, d) := by
  change run w (p.bind f) c = _
  induction p generalizing c with
  | done r =>
    cases r with
    | ok a => rfl
    | error error => rfl
  | act next rest ih => exact ih _ _
  | draw rest ih => exact ih _
  | ask query rest ih => exact ih _

theorem run_bind_of_ok (result : run w p c = (.ok a, d)) : run w (p >>= f) c = run w (f a) d := by
  rw [run_bind, result]

theorem run_bind_of_error (result : run w p c = (.error error, d)) :
    run w (p >>= f) c = (.error error, d) := by
  rw [run_bind, result]

theorem run_past (w : World H I Q A) (p : Prog H S E I Q A α) (c : Config S Q A) :
    c.past <+: (run w p c).2.past := by
  induction p generalizing c with
  | done r => exact List.prefix_rfl
  | act next rest ih =>
    exact ih _ _ { c with
      state := next (w.surroundings c.actions) c.state, actions := c.actions + 1 }
  | draw rest ih => exact ih _ { c with draws := c.draws + 1 }
  | ask query rest ih =>
    exact (List.prefix_append _ _).trans
      (ih _ { c with past := c.past ++ [(query, w.answer c.past query)] })

theorem run_past_bind (p : Prog H S E I Q A α) (f : α → Prog H S E I Q A β) :
    (run w p c).2.past <+: (run w (p >>= f) c).2.past := by
  rcases outcome : run w p c with ⟨error | a, m⟩
  · rw [run_bind_of_error outcome]
  · rw [run_bind_of_ok outcome]
    exact run_past w (f a) m

end Runs

section Leads

variable {post : α → S → Prop} {p : Prog H S E I Q A α}

/-- Whatever the program meets from `s`, a value it returns is as `post` says. -/
def Leads (p : Prog H S E I Q A α) (s : S) (post : α → S → Prop) : Prop :=
  ∀ (w : World H I Q A) (c d : Config S Q A) a, c.state = s → run w p c = (.ok a, d) → post a d.state

variable {s : S}

theorem Leads.mono {pre post : α → S → Prop} (leads : Leads p s pre)
    (weaken : ∀ a t, pre a t → post a t) : Leads p s post :=
  fun w c d a same result => weaken a d.state (leads w c d a same result)

theorem leads_pure (holds : post a s) : Leads (pure a : Prog H S E I Q A α) s post := by
  intro w c d b same result
  obtain ⟨value, rfl⟩ := Prod.mk.inj result
  obtain rfl := Except.ok.inj value
  rw [same]
  exact holds

theorem leads_fail : Leads (Prog.fail error : Prog H S E I Q A α) s post := by
  intro w c d a same result
  cases (Prod.mk.inj result).1

theorem leads_perform {m : Local H S E α} (yields : m.Yields s post) :
    Leads (Prog.perform m : Prog H S E I Q A α) s post := by
  intro w c d a same result
  obtain ⟨value, rfl⟩ := Prod.mk.inj result
  subst same
  exact yields (w.surroundings c.actions) a _ (Prod.ext value rfl)

theorem leads_fresh : Leads (Prog.fresh error : Prog H S E I Q A I) s fun _ t => t = s := by
  intro w c d a same result
  cases drawn : w.drawn c.draws with
  | none =>
    have failed : run w (Prog.fresh error : Prog H S E I Q A I) c =
        (.error error, { c with draws := c.draws + 1 }) := by
      simp only [Prog.fresh, run, drawn]
    cases (Prod.mk.inj (failed.symm.trans result)).1
  | some i =>
    have given : run w (Prog.fresh error : Prog H S E I Q A I) c =
        (.ok i, { c with draws := c.draws + 1 }) := by
      simp only [Prog.fresh, run, drawn]
    rw [← (Prod.mk.inj (given.symm.trans result)).2]
    exact same

theorem leads_request {query : Q} {lost : E} :
    Leads (Prog.request query lost : Prog H S E I Q A A) s fun _ t => t = s := by
  intro w c d a same result
  cases answered : w.answer c.past query with
  | none =>
    have failed : run w (Prog.request query lost : Prog H S E I Q A A) c =
        (.error lost, { c with past := c.past ++ [(query, none)] }) := by
      simp only [Prog.request, run, answered]
    cases (Prod.mk.inj (failed.symm.trans result)).1
  | some b =>
    have given : run w (Prog.request query lost : Prog H S E I Q A A) c =
        (.ok b, { c with past := c.past ++ [(query, some b)] }) := by
      simp only [Prog.request, run, answered]
    rw [← (Prod.mk.inj (given.symm.trans result)).2]
    exact same

theorem Leads.bind {mid : α → S → Prop} {post : β → S → Prop}
    (first : Leads p s mid) (rest : ∀ a t, mid a t → Leads (f a) t post) :
    Leads (p >>= f) s post := by
  intro w c d b same result
  rcases outcome : run w p c with ⟨error | a, m⟩
  · rw [run_bind_of_error outcome] at result
    cases (Prod.mk.inj result).1
  · rw [run_bind_of_ok outcome] at result
    exact rest a m.state (first w c m a same outcome) w m d b rfl result

end Leads

section Fuel

variable (w) (idle : Option A → Bool) (spent : E)

/-- With enough fuel the run always ends the same way, and not for want of fuel. -/
def Returns (p : Nat → Prog H S E I Q A α) (c : Config S Q A)
    (post : Except E α → Config S Q A → Prop) : Prop :=
  ∃ enough r d, (∀ fuel, enough ≤ fuel → run w (p fuel) c = (r, d)) ∧ r ≠ .error spent ∧ post r d

/-- The run comes to a query that is answered idly however often it is sent. -/
def Starves (p : Nat → Prog H S E I Q A α) (c : Config S Q A) : Prop :=
  ∃ past query, c.past <+: past ∧ (∀ n, idle (w.answer (w.repeated past query n) query) = true) ∧
    ∀ n, ∃ enough, ∀ fuel, enough ≤ fuel →
      w.repeated past query n <+: (run w (p fuel) c).2.past

/-- Every query of the run, sent often enough, is answered otherwise than idly. -/
def Attends (p : Nat → Prog H S E I Q A α) (c : Config S Q A) : Prop :=
  ∀ fuel past query answer, c.past <+: past →
    past ++ [(query, answer)] <+: (run w (p fuel) c).2.past →
    ∃ n, idle (w.answer (w.repeated past query n) query) = false

def Halts (p : Nat → Prog H S E I Q A α) (c : Config S Q A)
    (post : Except E α → Config S Q A → Prop) : Prop :=
  Returns w spent p c post ∨ Starves w idle p c

variable {w idle spent} {p : Nat → Prog H S E I Q A α} {post : Except E α → Config S Q A → Prop}

theorem Halts.returns (halts : Halts w idle spent p c post) (attends : Attends w idle p c) :
    Returns w spent p c post := by
  rcases halts with returns | ⟨past, query, begun, idles, reached⟩
  · exact returns
  · obtain ⟨enough, prefixed⟩ := reached 1
    obtain ⟨n, busy⟩ := attends enough past query _ begun (prefixed enough le_rfl)
    rw [idles n] at busy
    cases busy

theorem Halts.traced (halts : Halts w idle spent p c post) :
    Halts w idle spent p c fun r d => ∃ fuel, run w (p fuel) c = (r, d) := by
  rcases halts with ⟨enough, r, d, result, real, -⟩ | starves
  · exact .inl ⟨enough, r, d, result, real, enough, result enough le_rfl⟩
  · exact .inr starves

theorem Halts.of_steps {q : Nat → Prog H S E I Q A α} (left : Nat → Nat) (base : Nat)
    (halts : Halts w idle spent q d post) (ample : ∀ n fuel, base + n ≤ fuel → n ≤ left fuel)
    (steps : ∀ fuel, base ≤ fuel → run w (p fuel) c = run w (q (left fuel)) d)
    (before : c.past <+: d.past) : Halts w idle spent p c post := by
  have onward : ∀ {enough fuel}, base + enough ≤ fuel → run w (p fuel) c = run w (q (left fuel)) d :=
    fun plenty => steps _ ((Nat.le_add_right _ _).trans plenty)
  rcases halts with ⟨enough, r, final, result, real, holds⟩ | ⟨past, query, begun, idles, reached⟩
  · refine .inl ⟨base + enough, r, final, fun fuel plenty => ?_, real, holds⟩
    exact (onward plenty).trans (result _ (ample enough fuel plenty))
  refine .inr ⟨past, query, before.trans begun, idles, fun n => ?_⟩
  obtain ⟨enough, prefixed⟩ := reached n
  refine ⟨base + enough, fun fuel plenty => ?_⟩
  rw [onward plenty]
  exact prefixed _ (ample enough fuel plenty)

theorem halts_of_run {r : Except E α} (result : ∀ fuel, run w (p fuel) c = (r, d))
    (real : r ≠ .error spent) (holds : post r d) : Halts w idle spent p c post :=
  .inl ⟨0, r, d, fun fuel _ => result fuel, real, holds⟩

theorem halts_pure (holds : post (.ok a) c) : Halts w idle spent (fun _ => pure a) c post :=
  halts_of_run (fun _ => rfl) (fun impossible => by cases impossible) holds

theorem halts_fail (other : error ≠ spent) (holds : post (.error error) c) :
    Halts w idle spent (fun _ => Prog.fail error) c post :=
  halts_of_run (fun _ => rfl) (fun same => other (Except.error.inj same)) holds

theorem halts_perform {m : Local H S E α} (real : ∀ h, (m h c.state).1 ≠ .error spent) :
    Halts w idle spent (fun _ => Prog.perform m) c fun _ _ => True :=
  halts_of_run (fun _ => rfl) (real (w.surroundings c.actions)) trivial

theorem halts_fresh (other : error ≠ spent) :
    Halts w idle spent (fun _ => (Prog.fresh error : Prog H S E I Q A I)) c fun _ _ => True := by
  cases drawn : w.drawn c.draws with
  | none =>
    refine halts_of_run (r := .error error) (d := { c with draws := c.draws + 1 }) (fun _ => ?_)
      (fun same => other (Except.error.inj same)) trivial
    simp only [Prog.fresh, run, drawn]
  | some i =>
    refine halts_of_run (r := .ok i) (d := { c with draws := c.draws + 1 }) (fun _ => ?_)
      (fun impossible => by cases impossible) trivial
    simp only [Prog.fresh, run, drawn]

theorem Halts.bind {f : Nat → α → Prog H S E I Q A β} {mid : Except E α → Config S Q A → Prop}
    {post : Except E β → Config S Q A → Prop} (first : Halts w idle spent p c mid)
    (rest : ∀ a d, mid (.ok a) d → Halts w idle spent (fun fuel => f fuel a) d post)
    (stop : ∀ error d, mid (.error error) d → post (.error error) d) :
    Halts w idle spent (fun fuel => p fuel >>= f fuel) c post := by
  rcases first with ⟨enough, r, d, result, real, reached⟩ | ⟨past, query, begun, idles, reached⟩
  · cases r with
    | error error =>
      refine .inl ⟨enough, .error error, d, fun fuel plenty => ?_, ?_, stop error d reached⟩
      · exact run_bind_of_error (result fuel plenty)
      · intro same
        exact real (congrArg Except.error (Except.error.inj same))
    | ok a =>
      have before : c.past <+: d.past := by
        have kept := run_past w (p enough) c
        rw [result enough le_rfl] at kept
        exact kept
      exact (rest a d reached).of_steps id enough (fun _ _ => (Nat.le_add_left _ _).trans)
        (fun fuel plenty => run_bind_of_ok (result fuel plenty)) before
  · refine .inr ⟨past, query, begun, idles, fun n => ?_⟩
    obtain ⟨enough, prefixed⟩ := reached n
    exact ⟨enough, fun fuel plenty => (prefixed fuel plenty).trans (run_past_bind _ _)⟩

theorem halts_succ :
    Halts w idle spent (fun fuel => p (fuel + 1)) c post ↔ Halts w idle spent p c post := by
  constructor
  · refine fun halts => halts.of_steps (· - 1) 1 ?_ ?_ List.prefix_rfl
    · exact fun n fuel plenty => Nat.le_sub_of_add_le' plenty
    · intro fuel plenty
      rw [Nat.sub_add_cancel plenty]
  · exact fun halts => halts.of_steps (· + 1) 0 (fun n fuel plenty => by omega) (fun _ _ => rfl)
      List.prefix_rfl

end Fuel

section Loops

def again (onward : X → Prog H S E I Q A Unit) : Option X → Prog H S E I Q A Unit
  | none => pure ()
  | some y => onward y

/-- A loop that runs out of fuel is a round and the loop with less of it, and a round that goes on
has brought what the loop carries and the state `closer`. -/
structure Advances (loop : Nat → X → Prog H S E I Q A Unit)
    (round : Nat → X → Prog H S E I Q A (Option X)) (closer : X × S → X × S → Prop) : Prop where
  unfolds : ∀ fuel x, loop (fuel + 1) x = round fuel x >>= again (loop fuel)
  nearer : ∀ fuel x s, Leads (round fuel x) s fun next t =>
    ∀ y, next = some y → closer (x, s) (y, t)
  founded : WellFounded fun new old => closer old new

theorem Advances.loop_halts {idle : Option A → Bool} {spent : E}
    {loop : Nat → X → Prog H S E I Q A Unit} {round : Nat → X → Prog H S E I Q A (Option X)}
    {closer : X × S → X × S → Prop} (advances : Advances loop round closer)
    (rounds : ∀ x c, Halts w idle spent (fun fuel => round fuel x) c fun _ _ => True) (x : X)
    (c : Config S Q A) : Halts w idle spent (fun fuel => loop fuel x) c fun _ _ => True := by
  generalize carried : (x, c.state) = place
  induction place using advances.founded.induction generalizing x c with
  | h place ih =>
    subst carried
    refine halts_succ.mp ?_
    simp only [advances.unfolds]
    refine (rounds x c).traced.bind (fun next d reached => ?_) fun _ _ _ => trivial
    obtain ⟨fuel, ran⟩ := reached
    cases next with
    | none => exact halts_pure trivial
    | some y =>
      exact ih _ (advances.nearer fuel x c.state w c d _ rfl ran y rfl) y d rfl

end Loops

end Grotto.Base.Execution
