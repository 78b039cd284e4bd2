/- GID: Grotto/Base/Progress
   digest: What the answers to a program have told so far, and what holds wherever it asks. -/

import Grotto.Base.Program

set_option autoImplicit false

namespace Grotto.Base.Progress

open Program

variable {H S E I Q A G α β : Type}

theorem bind_assoc {γ : Type} (p : Prog H S E I Q A α) (f : α → Prog H S E I Q A β)
    (k : β → Prog H S E I Q A γ) : (p >>= f) >>= k = p >>= fun a => f a >>= k := by
  change (p.bind f).bind k = p.bind fun a => (f a).bind k
  induction p with
  | done r =>
    cases r with
    | ok a => rfl
    | error e => rfl
  | act next rest ih => exact congrArg (Prog.act next) (funext fun h => funext fun s => ih h s)
  | draw rest ih => exact congrArg Prog.draw (funext ih)
  | ask query rest ih => exact congrArg (Prog.ask query) (funext ih)

section Tracks

structure Grows [LE G] (learn : G → Q → A → G) : Prop where
  grows : ∀ g q a, g ≤ learn g q a
  mono : ∀ g k q a, g ≤ k → learn g q a ≤ learn k q a

variable (learn : G → Q → A → G)

/-- Whatever is answered, the program ends as `post` says of what the answers have told. -/
def Tracks (post : G → Except E α → Prop) : Prog H S E I Q A α → G → Prop
  | .done r, g => post g r
  | .act _ rest, g => ∀ h s, Tracks post (rest h s) g
  | .draw rest, g => ∀ i, Tracks post (rest i) g
  | .ask query rest, g =>
    (∀ a, Tracks post (rest (some a)) (learn g query a)) ∧ Tracks post (rest none) g

variable {learn} {post : G → Except E α → Prop} {p : Prog H S E I Q A α} {g k : G}

theorem Tracks.mono {weaker : G → Except E α → Prop} (tracks : Tracks learn post p g)
    (weaken : ∀ g r, post g r → weaker g r) : Tracks learn weaker p g := by
  induction p generalizing g with
  | done r => exact weaken g r tracks
  | act next rest ih => exact fun h s => ih h s (tracks h s)
  | draw rest ih => exact fun i => ih i (tracks i)
  | ask query rest ih =>
    exact ⟨fun a => ih (some a) (tracks.1 a), ih none tracks.2⟩

theorem Tracks.bind {mid : G → Except E α → Prop} {post : G → Except E β → Prop}
    {f : α → Prog H S E I Q A β} (first : Tracks learn mid p g)
    (rest : ∀ a g, mid g (.ok a) → Tracks learn post (f a) g)
    (stop : ∀ e g, mid g (.error e) → post g (.error e)) : Tracks learn post (p >>= f) g := by
  change Tracks learn post (p.bind f) g
  induction p generalizing g with
  | done r =>
    cases r with
    | ok a => exact rest a g first
    | error e => exact stop e g first
  | act next onward ih => exact fun h s => ih h s (first h s)
  | draw onward ih => exact fun i => ih i (first i)
  | ask query onward ih => exact ⟨fun a => ih (some a) (first.1 a), ih none first.2⟩

theorem tracks_pure {a : α} (holds : post g (.ok a)) :
    Tracks learn post (pure a : Prog H S E I Q A α) g :=
  holds

theorem tracks_fail {e : E} (holds : post g (.error e)) :
    Tracks learn post (Prog.fail e : Prog H S E I Q A α) g :=
  holds

variable [Preorder G]

theorem Tracks.raise (laws : Grows learn) (tracks : Tracks learn post p g) (more : g ≤ k)
    (raise : ∀ g k r, g ≤ k → post g r → post k r) : Tracks learn post p k := by
  induction p generalizing g k with
  | done r => exact raise g k r more tracks
  | act next rest ih => exact fun h s => ih h s (tracks h s) more
  | draw rest ih => exact fun i => ih i (tracks i) more
  | ask query rest ih =>
    exact ⟨fun a => ih (some a) (tracks.1 a) (laws.mono g k query a more), ih none tracks.2 more⟩

theorem tracks_grow (laws : Grows learn) (p : Prog H S E I Q A α) (g : G) :
    Tracks learn (fun k _ => g ≤ k) p g := by
  suffices general : ∀ k, g ≤ k → Tracks learn (fun k _ => g ≤ k) p k from general g le_rfl
  intro k more
  induction p generalizing k with
  | done r => exact more
  | act next rest ih => exact fun h s => ih h s k more
  | draw rest ih => exact fun i => ih i k more
  | ask query rest ih =>
    exact ⟨fun a => ih (some a) _ (more.trans (laws.grows k query a)), ih none k more⟩

end Tracks

section Asks

/-- What holds of each request of a program and of what follows it. -/
def Asks (holds : Q → (Option A → Prog H S E I Q A α) → Prop) : Prog H S E I Q A α → Prop
  | .done _ => True
  | .act _ rest => ∀ h s, Asks holds (rest h s)
  | .draw rest => ∀ i, Asks holds (rest i)
  | .ask query rest => holds query rest ∧ ∀ a, Asks holds (rest a)

variable {holds : Q → (Option A → Prog H S E I Q A α) → Prop} {p : Prog H S E I Q A α}

theorem Asks.mono {weaker : Q → (Option A → Prog H S E I Q A α) → Prop} (asks : Asks holds p)
    (weaken : ∀ query rest, holds query rest → weaker query rest) : Asks weaker p := by
  induction p with
  | done r => trivial
  | act next rest ih => exact fun h s => ih h s (asks h s)
  | draw rest ih => exact fun i => ih i (asks i)
  | ask query rest ih => exact ⟨weaken query rest asks.1, fun a => ih a (asks.2 a)⟩

theorem Asks.bind {more : Q → (Option A → Prog H S E I Q A β) → Prop}
    {f : α → Prog H S E I Q A β} (first : Asks (fun query rest => more query fun a => rest a >>= f) p)
    (rest : ∀ a, Asks more (f a)) : Asks more (p >>= f) := by
  change Asks more (p.bind f)
  induction p with
  | done r =>
    cases r with
    | ok a => exact rest a
    | error e => trivial
  | act next onward ih => exact fun h s => ih h s (first h s)
  | draw onward ih => exact fun i => ih i (first i)
  | ask query onward ih => exact ⟨first.1, fun a => ih a (first.2 a)⟩

theorem asks_pure {a : α} : Asks holds (pure a : Prog H S E I Q A α) := trivial

theorem asks_fail {e : E} : Asks holds (Prog.fail e : Prog H S E I Q A α) := trivial

theorem asks_perform {m : Local H S E α} : Asks holds (Prog.perform m : Prog H S E I Q A α) :=
  fun _ _ => trivial

theorem asks_fresh {e : E} {holds : Q → (Option A → Prog H S E I Q A I) → Prop} :
    Asks holds (Prog.fresh e : Prog H S E I Q A I) := by
  intro drawn
  cases drawn with
  | none => trivial
  | some i => trivial

end Asks

end Grotto.Base.Progress
