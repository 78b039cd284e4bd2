/- GID: Grotto/Base/Program
   digest: Programs of atomic actions, identifier draws and requests, and the rules they follow. -/

import Mathlib.Order.Basic
import Mathlib.Order.BooleanAlgebra.Basic

set_option autoImplicit false

namespace Grotto.Base.Program

theorem mapError_ok {ε δ α : Type} {r : Except ε α} {f : ε → δ} {a : α}
    (mapped : r.mapError f = .ok a) : r = .ok a := by
  cases r with
  | ok b => exact congrArg Except.ok (Except.ok.inj mapped)
  | error e => cases mapped

/-- A computation that runs to its end on a state, with what its surroundings answer. -/
def Local (H S E α : Type) := H → S → Except E α × S

namespace Local

variable {H S E α β : Type} {m : Local H S E α} {f : α → Local H S E β} {h : H} {s t : S}

instance : Monad (Local H S E) where
  pure a := fun _ s => (.ok a, s)
  bind m f := fun h s =>
    match m h s with
    | (.ok a, t) => f a h t
    | (.error e, t) => (.error e, t)

theorem bind_of_ok {a : α} (result : m h s = (.ok a, t)) : (m >>= f) h s = f a h t := by
  change (match m h s with
    | (.ok a, t) => f a h t
    | (.error e, t) => (.error e, t)) = f a h t
  rw [result]

theorem bind_of_error {e : E} (result : m h s = (.error e, t)) : (m >>= f) h s = (.error e, t) := by
  change (match m h s with
    | (.ok a, t) => f a h t
    | (.error e, t) => (.error e, t)) = (.error e, t)
  rw [result]

theorem bind_assoc {γ : Type} (m : Local H S E α) (f : α → Local H S E β)
    (g : β → Local H S E γ) : (m >>= f) >>= g = m >>= fun a => f a >>= g := by
  funext h s
  rcases outcome : m h s with ⟨e | a, t⟩
  · rw [bind_of_error outcome, bind_of_error (bind_of_error outcome)]
  · rw [bind_of_ok outcome]
    rcases result : f a h t with ⟨e | b, u⟩
    · rw [bind_of_error result, bind_of_error ((bind_of_ok outcome).trans result)]
    · rw [bind_of_ok result, bind_of_ok ((bind_of_ok outcome).trans result)]

def fail (e : E) : Local H S E α := fun _ s => (.error e, s)

def get : Local H S E S := fun _ s => (.ok s, s)

def modify (f : S → S) : Local H S E Unit := fun _ s => (.ok (), f s)

def surroundings : Local H S E H := fun h s => (.ok h, s)

def ofExcept (r : Except E α) : Local H S E α := fun _ s => (r, s)

/-- The outcome as a value: the caller decides what an error means. -/
def attempt (m : Local H S E α) : Local H S E (Except E α) := fun h s =>
  (.ok (m h s).1, (m h s).2)

section Ends

/-- Whatever the surroundings, the computation from `s` ends as `post` says. -/
def Ends (m : Local H S E α) (s : S) (post : Except E α → S → Prop) : Prop :=
  ∀ h, post (m h s).1 (m h s).2

variable {mid post : Except E α → S → Prop} {final : Except E β → S → Prop}

theorem Ends.mono (ends : m.Ends s mid) (weaken : ∀ r t, mid r t → post r t) : m.Ends s post :=
  fun h => weaken _ _ (ends h)

theorem Ends.and (first : m.Ends s mid) (second : m.Ends s post) :
    m.Ends s fun r t => mid r t ∧ post r t :=
  fun h => ⟨first h, second h⟩

theorem ends_pure {a : α} (holds : post (.ok a) s) : (pure a : Local H S E α).Ends s post :=
  fun _ => holds

theorem ends_fail {e : E} (holds : post (.error e) s) : (fail e : Local H S E α).Ends s post :=
  fun _ => holds

theorem ends_get {f : S → Local H S E α} (rest : (f s).Ends s post) : (get >>= f).Ends s post :=
  fun h => rest h

theorem ends_modify {f : S → S} {post : Except E Unit → S → Prop} (holds : post (.ok ()) (f s)) :
    (modify f : Local H S E Unit).Ends s post :=
  fun _ => holds

theorem ends_modify_then {f : S → S} {m : Unit → Local H S E α} (rest : (m ()).Ends (f s) post) :
    (modify f >>= m).Ends s post :=
  fun h => rest h

theorem ends_ofExcept {r : Except E α} (holds : post r s) : (ofExcept r : Local H S E α).Ends s post :=
  fun _ => holds

theorem ends_surroundings {f : H → Local H S E α} (rest : ∀ h, (f h).Ends s post) :
    (surroundings >>= f).Ends s post :=
  fun h => rest h h

theorem ends_ofExcept_then {r : Except E α} (value : ∀ a, r = .ok a → (f a).Ends s final)
    (error : ∀ e, r = .error e → final (.error e) s) : (ofExcept r >>= f).Ends s final :=
  fun h => by
    cases result : r with
    | ok a =>
      subst result
      exact value a rfl h
    | error e =>
      subst result
      exact error e rfl

theorem ends_attempt {f : Except E α → Local H S E β} (first : m.Ends s mid)
    (rest : ∀ r t, mid r t → (f r).Ends t final) : (m.attempt >>= f).Ends s final :=
  fun h => rest _ _ (first h) h

theorem Ends.attempt (ends : m.Ends s post) : m.attempt.Ends s fun r t => ∃ a, r = .ok a ∧ post a t :=
  fun h => ⟨_, rfl, ends h⟩

theorem Ends.bind (first : m.Ends s mid) (rest : ∀ a t, mid (.ok a) t → (f a).Ends t final)
    (stop : ∀ e t, mid (.error e) t → final (.error e) t) : (m >>= f).Ends s final := by
  intro h
  have reached := first h
  rcases outcome : m h s with ⟨_ | a, t⟩ <;> rw [outcome] at reached
  · rw [bind_of_error outcome]
    exact stop _ t reached
  · rw [bind_of_ok outcome]
    exact rest a t reached h

end Ends

section Returns

variable {mid post : α → S → Prop} {final : β → S → Prop}

/-- In these surroundings, a value the computation returns from `s` is as `post` says. -/
def Gives (m : Local H S E α) (h : H) (s : S) (post : α → S → Prop) : Prop :=
  ∀ a t, m h s = (.ok a, t) → post a t

theorem Gives.bind (first : m.Gives h s mid) (rest : ∀ a t, mid a t → (f a).Gives h t final) :
    (m >>= f).Gives h s final := by
  intro b u result
  rcases outcome : m h s with ⟨_ | a, t⟩
  · rw [bind_of_error outcome] at result
    cases (Prod.mk.inj result).1
  · rw [bind_of_ok outcome] at result
    exact rest a t (first a t outcome) b u result

/-- The run itself, beside what it gives. -/
theorem Gives.along (gives : m.Gives h s post) :
    m.Gives h s fun a t => m h s = (.ok a, t) ∧ post a t :=
  fun a t result => ⟨result, gives a t result⟩

theorem gives_attempt {f : Except E α → Local H S E β}
    (rest : ∀ r t, m h s = (r, t) → (f r).Gives h t final) : (m.attempt >>= f).Gives h s final :=
  fun b u result => rest _ _ rfl b u result

/-- Whatever the surroundings, a value the computation returns from `s` is as `post` says. -/
def Yields (m : Local H S E α) (s : S) (post : α → S → Prop) : Prop :=
  ∀ h a t, m h s = (.ok a, t) → post a t

theorem Yields.gives (yields : m.Yields s post) : m.Gives h s post :=
  yields h

theorem Yields.mono (yields : m.Yields s mid) (weaken : ∀ a t, mid a t → post a t) : m.Yields s post :=
  fun h a t result => weaken a t (yields h a t result)

theorem Ends.yields {post : Except E α → S → Prop} (ends : m.Ends s post) :
    m.Yields s fun a t => post (.ok a) t := by
  intro h a t result
  have reached := ends h
  rw [result] at reached
  exact reached

theorem Yields.ends (yields : m.Yields s post) : m.Ends s fun r t => ∀ a, r = .ok a → post a t :=
  fun h a result => yields h a _ (Prod.ext result rfl)

theorem yields_pure {a : α} (holds : post a s) : (pure a : Local H S E α).Yields s post := by
  intro h b t result
  obtain ⟨same, rfl⟩ := Prod.mk.inj result
  obtain rfl := Except.ok.inj same
  exact holds

theorem yields_fail {e : E} : (fail e : Local H S E α).Yields s post := by
  intro h a t result
  cases (Prod.mk.inj result).1

theorem yields_get {f : S → Local H S E α} (rest : (f s).Yields s post) : (get >>= f).Yields s post :=
  fun h a t result => rest h a t result

theorem yields_modify {f : S → S} {post : Unit → S → Prop} (holds : post () (f s)) :
    (modify f : Local H S E Unit).Yields s post := by
  intro h a t result
  obtain ⟨-, rfl⟩ := Prod.mk.inj result
  exact holds

theorem yields_modify_then {f : S → S} {m : Unit → Local H S E α} (rest : (m ()).Yields (f s) post) :
    (modify f >>= m).Yields s post :=
  fun h a t result => rest h a t result

theorem yields_attempt {f : Except E α → Local H S E β} {mid : Except E α → S → Prop}
    (first : m.Ends s mid) (rest : ∀ r t, mid r t → (f r).Yields t final) :
    (m.attempt >>= f).Yields s final :=
  fun h b u result => rest _ _ (first h) h b u result

theorem yields_ofExcept {r : Except E α} (holds : ∀ a, r = .ok a → post a s) :
    (ofExcept r : Local H S E α).Yields s post := by
  intro h a t result
  obtain ⟨same, rfl⟩ := Prod.mk.inj result
  exact holds a same

theorem Yields.bind (first : m.Yields s mid) (rest : ∀ a t, mid a t → (f a).Yields t final) :
    (m >>= f).Yields s final :=
  fun _ => first.gives.bind fun a t reached => (rest a t reached).gives

/-- In these surroundings, the computation from `s` returns a value as `post` says. -/
def Returns (m : Local H S E α) (h : H) (s : S) (post : α → S → Prop) : Prop :=
  ∃ a t, m h s = (.ok a, t) ∧ post a t

theorem Returns.mono (returns : m.Returns h s mid) (weaken : ∀ a t, mid a t → post a t) :
    m.Returns h s post := by
  obtain ⟨a, t, result, reached⟩ := returns
  exact ⟨a, t, result, weaken a t reached⟩

theorem returns_pure {a : α} (holds : post a s) : (pure a : Local H S E α).Returns h s post :=
  ⟨a, s, rfl, holds⟩

theorem returns_get {f : S → Local H S E α} (rest : (f s).Returns h s post) :
    (get >>= f).Returns h s post :=
  rest

theorem returns_modify {f : S → S} {post : Unit → S → Prop} (holds : post () (f s)) :
    (modify f : Local H S E Unit).Returns h s post :=
  ⟨(), f s, rfl, holds⟩

theorem returns_modify_then {f : S → S} {m : Unit → Local H S E α}
    (rest : (m ()).Returns h (f s) post) : (modify f >>= m).Returns h s post :=
  rest

theorem Returns.attempt (returns : m.Returns h s post) :
    m.attempt.Returns h s fun r t => ∃ a, r = .ok a ∧ post a t := by
  obtain ⟨a, t, result, reached⟩ := returns
  refine ⟨.ok a, t, ?_, a, rfl, reached⟩
  unfold Local.attempt
  rw [result]

theorem Returns.bind (first : m.Returns h s mid) (rest : ∀ a t, mid a t → (f a).Returns h t final) :
    (m >>= f).Returns h s final := by
  obtain ⟨a, t, result, reached⟩ := first
  obtain ⟨b, u, done, holds⟩ := rest a t reached
  exact ⟨b, u, (bind_of_ok result).trans done, holds⟩

theorem Returns.and (returns : m.Returns h s mid) (gives : m.Gives h s post) :
    m.Returns h s fun a t => mid a t ∧ post a t := by
  obtain ⟨a, t, result, reached⟩ := returns
  exact ⟨a, t, result, reached, gives a t result⟩

end Returns

/-- How two runs are set side by side: the surroundings of either run, and the errors with which
the first one may leave the comparison. -/
structure Contrast (H E : Type) where
  first : H → Prop
  second : H → Prop
  excused : E → Prop

/-- From related states the two computations give one answer and end in related states, unless the
first one has an excuse. -/
def Matches (c : Contrast H E) (before : S → S → Prop) (m n : Local H S E α)
    (after : Except E α → S → S → Prop) : Prop :=
  ∀ h k s t, c.first h → c.second k → before s t →
    (∃ e, (m h s).1 = .error e ∧ c.excused e) ∨
      ((m h s).1 = (n k t).1 ∧ after (m h s).1 (m h s).2 (n k t).2)

section Habits

/-- How a computation may have moved the state and what it may raise, closed under sequencing. -/
structure Habit (S E : Type) where
  moves : S → S → Prop
  raises : E → Prop
  stay : ∀ s, moves s s
  join : ∀ s t u, moves s t → moves t u → moves s u

def Minds (habit : Habit S E) (m : Local H S E α) : Prop :=
  ∀ s, m.Ends s fun r t => habit.moves s t ∧ ∀ e, r = .error e → habit.raises e

variable {habit : Habit S E}

theorem Minds.bind (first : m.Minds habit)
    (rest : ∀ a, (f a).Minds habit) : (m >>= f).Minds habit := fun s =>
  (first s).bind
    (fun a t reached => (rest a t).mono fun _ u onward =>
      ⟨habit.join s t u reached.1 onward.1, onward.2⟩)
    fun e _ reached => ⟨reached.1, fun _ same => Except.error.inj same ▸ reached.2 e rfl⟩

theorem minds_ofExcept {r : Except E α} (raised : ∀ e, r = .error e → habit.raises e) :
    (ofExcept r : Local H S E α).Minds habit := fun s => ends_ofExcept ⟨habit.stay s, raised⟩

theorem minds_pure (a : α) : (pure a : Local H S E α).Minds habit :=
  minds_ofExcept fun _ impossible => by cases impossible

theorem minds_fail {e : E} (raised : habit.raises e) : (fail e : Local H S E α).Minds habit :=
  minds_ofExcept fun _ same => Except.error.inj same ▸ raised

theorem minds_mapError {ε : Type} {r : Except ε α} {f : ε → E} (raised : ∀ x, habit.raises (f x)) :
    (ofExcept (r.mapError f) : Local H S E α).Minds habit := by
  refine minds_ofExcept fun e same => ?_
  cases r with
  | ok a => cases same
  | error x => exact Except.error.inj same ▸ raised x

theorem minds_get {f : S → Local H S E α} (rest : ∀ s, (f s).Minds habit) :
    (get >>= f : Local H S E α).Minds habit := fun s => ends_get (rest s s)

theorem minds_modify {f : S → S} (moved : ∀ s, habit.moves s (f s)) :
    (modify f : Local H S E Unit).Minds habit := fun s =>
  ends_modify ⟨moved s, fun _ impossible => by cases impossible⟩

theorem minds_attempt {f : Except E α → Local H S E β} (first : m.Minds habit)
    (rest : ∀ r, (∀ e, r = .error e → habit.raises e) → (f r).Minds habit) :
    (m.attempt >>= f).Minds habit := fun s =>
  ends_attempt (first s) fun r t reached => (rest r reached.2 t).mono fun _ u onward =>
    ⟨habit.join s t u reached.1 onward.1, onward.2⟩

end Habits

section Matches

variable {c : Contrast H E} {before : S → S → Prop} {n : Local H S E α} {g : α → Local H S E β}
variable {mid after : Except E α → S → S → Prop} {final : Except E β → S → S → Prop}

theorem Matches.mono {stronger : S → S → Prop} (matching : Matches c before m n mid)
    (strengthen : ∀ s t, stronger s t → before s t)
    (weaken : ∀ r s t, mid r s t → after r s t) : Matches c stronger m n after := by
  intro h k s t fits works related
  rcases matching h k s t fits works (strengthen s t related) with excuse | ⟨same, reached⟩
  · exact .inl excuse
  · exact .inr ⟨same, weaken _ _ _ reached⟩

theorem matches_pure {a : α}
    (holds : ∀ s t, before s t → after (.ok a) s t) : Matches c before (pure a) (pure a) after :=
  fun _ _ s t _ _ related => .inr ⟨rfl, holds s t related⟩

theorem matches_fail {e : E}
    (holds : ∀ s t, before s t → after (.error e) s t) : Matches c before (fail e) (fail e) after :=
  fun _ _ s t _ _ related => .inr ⟨rfl, holds s t related⟩

theorem matches_ofExcept {r : Except E α} :
    Matches c before (ofExcept r) (ofExcept r) fun _ => before :=
  fun _ _ _ _ _ _ related => .inr ⟨rfl, related⟩

theorem matches_modify {f : S → S} {after : Except E Unit → S → S → Prop}
    (holds : ∀ s t, before s t → after (.ok ()) (f s) (f t)) :
    Matches c before (modify f) (modify f) after :=
  fun _ _ s t _ _ related => .inr ⟨rfl, holds s t related⟩

theorem matches_get {f g : S → Local H S E α}
    (rest : ∀ s t, before s t → Matches c (fun a b => a = s ∧ b = t) (f s) (g t) after) :
    Matches c before (get >>= f) (get >>= g) after :=
  fun h k s t fits works related => rest s t related h k s t fits works ⟨rfl, rfl⟩

theorem Matches.bind (first : Matches c before m n mid)
    (rest : ∀ a, Matches c (mid (.ok a)) (f a) (g a) final)
    (stop : ∀ e s t, mid (.error e) s t → final (.error e) s t) :
    Matches c before (m >>= f) (n >>= g) final := by
  intro h k s t fits works related
  have reached := first h k s t fits works related
  rcases one : m h s with ⟨e | a, s'⟩ <;> rw [one] at reached
  · rw [bind_of_error one]
    rcases reached with ⟨_, same, excused⟩ | ⟨same, reached⟩
    · obtain rfl := Except.error.inj same
      exact .inl ⟨e, rfl, excused⟩
    · have two : n k t = (.error e, (n k t).2) := Prod.ext same.symm rfl
      rw [bind_of_error two]
      exact .inr ⟨rfl, stop _ _ _ reached⟩
  · rw [bind_of_ok one]
    rcases reached with ⟨_, same, -⟩ | ⟨same, reached⟩
    · cases same
    · have two : n k t = (.ok a, (n k t).2) := Prod.ext same.symm rfl
      rw [bind_of_ok two]
      exact rest a h k _ _ fits works reached

theorem Matches.attempt (matching : Matches c before m n after) (strict : ∀ e, ¬c.excused e) :
    Matches c before m.attempt n.attempt fun r s t => ∃ a, r = .ok a ∧ after a s t := by
  intro h k s t fits works related
  rcases matching h k s t fits works related with ⟨e, -, excused⟩ | ⟨same, reached⟩
  · exact absurd excused (strict e)
  · exact .inr ⟨congrArg Except.ok same, _, rfl, reached⟩

end Matches

end Local

/-- A program of actions on its own state, draws of identifiers and requests to a peer.
An unanswered request continues with `none`. -/
inductive Prog (H S E I Q A α : Type) : Type
  | done (result : Except E α)
  | act (next : H → S → S) (rest : H → S → Prog H S E I Q A α)
  | draw (rest : Option I → Prog H S E I Q A α)
  | ask (query : Q) (rest : Option A → Prog H S E I Q A α)

namespace Prog

variable {H S E I Q A α β : Type}

def bind (p : Prog H S E I Q A α) (f : α → Prog H S E I Q A β) : Prog H S E I Q A β :=
  match p with
  | done (.ok a) => f a
  | done (.error e) => done (.error e)
  | act next rest => act next fun h s => (rest h s).bind f
  | draw rest => draw fun i => (rest i).bind f
  | ask query rest => ask query fun a => (rest a).bind f

instance : Monad (Prog H S E I Q A) where
  pure a := done (.ok a)
  bind := bind

def fail (e : E) : Prog H S E I Q A α := done (.error e)

def perform (m : Local H S E α) : Prog H S E I Q A α :=
  act (fun h s => (m h s).2) fun h s => done (m h s).1

def request (query : Q) (lost : E) : Prog H S E I Q A A :=
  ask query fun
    | some a => done (.ok a)
    | none => done (.error lost)

def fresh (exhausted : E) : Prog H S E I Q A I :=
  draw fun
    | some i => done (.ok i)
    | none => done (.error exhausted)

end Prog

/-- What a program may do: which changes an action makes given the answers known and the
identifiers drawn and not yet used, which identifiers a state uses, and which requests are sent. -/
structure Discipline (S I Q A : Type) where
  uses : S → I → Prop
  may : (Q → A → Prop) → (I → Prop) → S → S → Prop
  sends : S → Q → Prop
  may_mono : ∀ known more new s t, known ≤ more → may known new s t → may more new s t

namespace Prog

variable {H S E I Q A α β : Type} (d : Discipline S I Q A)

/-- Every action of the program, whatever it draws and is answered, is one the discipline allows.
A drawn identifier is new until a state uses it. -/
def Follows (post : (Q → A → Prop) → (I → Prop) → S → Except E α → Prop) :
    Prog H S E I Q A α → (Q → A → Prop) → (I → Prop) → S → Prop
  | done r, known, new, s => post known new s r
  | act next rest, known, new, s =>
    ∀ h, d.may known new s (next h s) ∧
      Follows post (rest h s) known (fun i => new i ∧ ¬d.uses (next h s) i) (next h s)
  | draw rest, known, new, s =>
    (∀ i, ¬d.uses s i → Follows post (rest (some i)) known (fun j => new j ∨ j = i) s) ∧
      Follows post (rest none) known new s
  | ask query rest, known, new, s =>
    d.sends s query ∧ ∀ more, known ≤ more →
      (∀ a, more query a → Follows post (rest (some a)) more new s) ∧
        Follows post (rest none) more new s

variable {d} {mid post : (Q → A → Prop) → (I → Prop) → S → Except E α → Prop}
variable {final : (Q → A → Prop) → (I → Prop) → S → Except E β → Prop} {p : Prog H S E I Q A α}
variable {known : Q → A → Prop} {new : I → Prop} {s : S}

theorem Follows.mono (weaken : ∀ known new s r, mid known new s r → post known new s r)
    (follows : p.Follows d mid known new s) : p.Follows d post known new s := by
  induction p generalizing known new s with
  | done r => exact weaken known new s r follows
  | act next rest ih =>
    intro h
    obtain ⟨allowed, onward⟩ := follows h
    exact ⟨allowed, ih h s onward⟩
  | draw rest ih =>
    obtain ⟨drawn, exhausted⟩ := follows
    exact ⟨fun i unused => ih (some i) (drawn i unused), ih none exhausted⟩
  | ask query rest ih =>
    obtain ⟨sent, onward⟩ := follows
    refine ⟨sent, fun later wider => ?_⟩
    obtain ⟨answered, lost⟩ := onward later wider
    exact ⟨fun a answer => ih (some a) (answered a answer), ih none lost⟩

theorem Follows.bind {f : α → Prog H S E I Q A β} (first : p.Follows d mid known new s)
    (rest : ∀ a more wide t, known ≤ more → mid more wide t (.ok a) →
      (f a).Follows d final more wide t)
    (stop : ∀ e more wide t, known ≤ more → mid more wide t (.error e) →
      final more wide t (.error e)) :
    (p >>= f).Follows d final known new s := by
  change (p.bind f).Follows d final known new s
  induction p generalizing known new s with
  | done r =>
    cases r with
    | ok a => exact rest a known new s le_rfl first
    | error e => exact stop e known new s le_rfl first
  | act next onward ih =>
    intro h
    obtain ⟨allowed, later⟩ := first h
    exact ⟨allowed, ih h s later rest stop⟩
  | draw onward ih =>
    obtain ⟨drawn, exhausted⟩ := first
    exact ⟨fun i unused => ih (some i) (drawn i unused) rest stop, ih none exhausted rest stop⟩
  | ask query onward ih =>
    obtain ⟨sent, later⟩ := first
    refine ⟨sent, fun more wider => ?_⟩
    obtain ⟨answered, lost⟩ := later more wider
    have rest' : ∀ a most wide t, more ≤ most → mid most wide t (.ok a) →
        (f a).Follows d final most wide t :=
      fun a most wide t extra => rest a most wide t (wider.trans extra)
    have stop' : ∀ e most wide t, more ≤ most → mid most wide t (.error e) →
        final most wide t (.error e) :=
      fun e most wide t extra => stop e most wide t (wider.trans extra)
    exact ⟨fun a answer => ih (some a) (answered a answer) rest' stop', ih none lost rest' stop'⟩

theorem follows_pure {a : α} (holds : post known new s (.ok a)) :
    (pure a : Prog H S E I Q A α).Follows d post known new s :=
  holds

theorem follows_fail {e : E} (holds : post known new s (.error e)) :
    (fail e : Prog H S E I Q A α).Follows d post known new s :=
  holds

theorem follows_perform {m : Local H S E α}
    (ends : m.Ends s fun r t => d.may known new s t ∧
      post known (fun i => new i ∧ ¬d.uses t i) t r) :
    (perform m : Prog H S E I Q A α).Follows d post known new s :=
  fun h => ⟨(ends h).1, (ends h).2⟩

theorem follows_fresh {e : E} {f : I → Prog H S E I Q A α}
    (drawn : ∀ i, ¬d.uses s i → (f i).Follows d post known (fun j => new j ∨ j = i) s)
    (exhausted : post known new s (.error e)) : (Prog.fresh e >>= f).Follows d post known new s :=
  ⟨drawn, exhausted⟩

theorem follows_request {query : Q} {e : E} {f : A → Prog H S E I Q A α} (sent : d.sends s query)
    (answered : ∀ a more, known ≤ more → more query a → (f a).Follows d post more new s)
    (lost : ∀ more, known ≤ more → post more new s (.error e)) :
    (Prog.request query e >>= f).Follows d post known new s :=
  ⟨sent, fun more wider => ⟨fun a answer => answered a more wider answer, lost more wider⟩⟩

end Prog

end Grotto.Base.Program
