/- GID: Grotto/Base/Interaction
   digest: Programs that only exchange queries for answers, and what their histories permit. -/

import Mathlib.Data.List.Infix

set_option autoImplicit false

namespace Grotto.Base.Interaction

/-- A program that asks its surroundings and ends with a value or an error. -/
inductive Script (Q : Type) (A : Q → Type) (E α : Type) : Type
  | done (result : Except E α)
  | ask (query : Q) (rest : A query → Script Q A E α)

abbrev Trace {Q : Type} (A : Q → Type) := List ((query : Q) × A query)

namespace Script

variable {Q : Type} {A : Q → Type} {E α β : Type}

def bind (p : Script Q A E α) (f : α → Script Q A E β) : Script Q A E β :=
  match p with
  | done (.ok a) => f a
  | done (.error e) => done (.error e)
  | ask query rest => ask query fun answer => (rest answer).bind f

instance : Monad (Script Q A E) where
  pure a := done (.ok a)
  bind := bind

def fail (e : E) : Script Q A E α := done (.error e)

def query (q : Q) : Script Q A E (A q) := ask q fun answer => done (.ok answer)

def ofExcept (r : Except E α) : Script Q A E α := done r

def attempt : Script Q A E α → Script Q A E (Except E α)
  | done r => done (.ok r)
  | ask query rest => ask query fun answer => (rest answer).attempt

end Script

section Always

variable {Q : Type} {A : Q → Type} {E α β : Type} (may : Trace A → Q → Prop)
variable {mid : Trace A → Except E α → Prop}

/-- Every query is one the history before it permits, and the result is one the whole history
permits. -/
def Always (post : Trace A → Except E α → Prop) : Script Q A E α → Trace A → Prop
  | .done r, past => post past r
  | .ask query rest, past =>
    may past query ∧ ∀ answer, Always post (rest answer) (past ++ [⟨query, answer⟩])

variable {may} {past : Trace A} {post : Trace A → Except E α → Prop} {p : Script Q A E α}

theorem Always.mono {weaker : Trace A → Except E α → Prop}
    (weaken : ∀ past r, post past r → weaker past r) (always : Always may post p past) :
    Always may weaker p past := by
  induction p generalizing past with
  | done r => exact weaken past r always
  | ask query rest ih => exact ⟨always.1, fun answer => ih answer (always.2 answer)⟩

theorem Always.bind {post : Trace A → Except E β → Prop}
    {f : α → Script Q A E β} (first : Always may mid p past)
    (rest : ∀ a past, mid past (.ok a) → Always may post (f a) past)
    (stop : ∀ e past, mid past (.error e) → post past (.error e)) :
    Always may post (p >>= f) past := by
  change Always may post (p.bind f) past
  induction p generalizing past with
  | done r =>
    cases r with
    | ok a => exact rest a past first
    | error e => exact stop e past first
  | ask query onward ih => exact ⟨first.1, fun answer => ih answer (first.2 answer)⟩

theorem always_attempt {post : Trace A → Except E β → Prop}
    {f : Except E α → Script Q A E β} (first : Always may mid p past)
    (rest : ∀ r past, mid past r → Always may post (f r) past) :
    Always may post (p.attempt >>= f) past := by
  change Always may post (p.attempt.bind f) past
  induction p generalizing past with
  | done r => exact rest r past first
  | ask query onward ih => exact ⟨first.1, fun answer => ih answer (first.2 answer)⟩

theorem always_pure {a : α} (holds : post past (.ok a)) :
    Always may post (pure a : Script Q A E α) past :=
  holds

theorem always_fail {e : E} (holds : post past (.error e)) :
    Always may post (Script.fail e : Script Q A E α) past :=
  holds

theorem always_query {q : Q} {f : A q → Script Q A E α} (permitted : may past q)
    (rest : ∀ answer, Always may post (f answer) (past ++ [⟨q, answer⟩])) :
    Always may post (Script.query q >>= f) past :=
  ⟨permitted, rest⟩

theorem always_ofExcept {r : Except E β} {f : β → Script Q A E α}
    (value : ∀ b, r = .ok b → Always may post (f b) past)
    (error : ∀ e, r = .error e → post past (.error e)) :
    Always may post (Script.ofExcept r >>= f) past := by
  cases r with
  | ok b => exact value b rfl
  | error e => exact error e rfl

end Always

section Permitted

variable {Q : Type} {A : Q → Type} {may : Trace A → Q → Prop}

/-- Each query of a history was permitted by what came before it. -/
def Permitted (may : Trace A → Q → Prop) (past : Trace A) : Prop :=
  ∀ before query answer after, past = before ++ ⟨query, answer⟩ :: after → may before query

theorem permitted_nil : Permitted may ([] : Trace A) := by
  intro before query answer after split
  simp at split

theorem Permitted.concat {past : Trace A} {query : Q} (permitted : Permitted may past)
    (allowed : may past query) (answer : A query) : Permitted may (past ++ [⟨query, answer⟩]) := by
  intro before other given after split
  rcases List.eq_nil_or_concat after with rfl | ⟨rest, last, rfl⟩
  · obtain ⟨rfl, same⟩ := List.append_inj' split rfl
    cases same
    exact allowed
  · rw [List.concat_eq_append, ← List.cons_append, ← List.append_assoc] at split
    obtain ⟨earlier, -⟩ := List.append_inj' split rfl
    exact permitted before other given rest earlier

end Permitted

end Grotto.Base.Interaction
