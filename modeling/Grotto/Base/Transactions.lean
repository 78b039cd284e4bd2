/- GID: Grotto/Base/Transactions
   digest: A database connection with one transaction, whose control statements may fail. -/

import Mathlib.Data.Option.Basic

set_option autoImplicit false

namespace Grotto.Base.Transactions

structure Connection (D : Type) where
  durable : D
  working : Option D
  deriving DecidableEq

inductive Residue
  | standing | undone | landed
  deriving DecidableEq

namespace Connection

variable {D : Type}

def isAutocommit (c : Connection D) : Bool := c.working.isNone

def visible (c : Connection D) : D := c.working.getD c.durable

/-- A statement works on the open transaction, or commits on its own. -/
def execute (f : D → D) (c : Connection D) : Connection D :=
  match c.working with
  | some data => { c with working := some (f data) }
  | none => { c with durable := f c.durable }

/-- `BEGIN IMMEDIATE`. -/
def beginImmediate (fails : Bool) (c : Connection D) : Bool × Connection D :=
  match c.working, fails with
  | none, false => (true, { c with working := some c.durable })
  | _, _ => (false, c)

/-- `COMMIT`; a failed one may leave the transaction open, undo it, or even carry it out. -/
def commit (failure : Option Residue) (c : Connection D) : Bool × Connection D :=
  match c.working, failure with
  | none, _ => (false, c)
  | some data, none => (true, ⟨data, none⟩)
  | some _, some .standing => (false, c)
  | some _, some .undone => (false, ⟨c.durable, none⟩)
  | some data, some .landed => (false, ⟨data, none⟩)

/-- `ROLLBACK`; it fails if no transaction is open. -/
def rollback (failure : Option Residue) (c : Connection D) : Bool × Connection D :=
  match c.working, failure with
  | none, _ => (false, c)
  | some _, none => (true, ⟨c.durable, none⟩)
  | some _, some .undone => (false, ⟨c.durable, none⟩)
  | some _, some _ => (false, c)

variable {c : Connection D}

theorem execute_open {f : D → D} {data : D} (standing : c.working = some data) :
    c.execute f = ⟨c.durable, some (f data)⟩ := by
  unfold execute
  rw [standing]

theorem isSome_execute (f : D → D) : (c.execute f).working.isSome = c.working.isSome := by
  obtain ⟨durable, _ | data⟩ := c <;> rfl

theorem begin_cases (fails : Bool) :
    c.working = none ∧ c.beginImmediate fails = (true, ⟨c.durable, some c.durable⟩) ∨
      c.beginImmediate fails = (false, c) := by
  obtain ⟨durable, _ | data⟩ := c
  · cases fails
    · exact .inl ⟨rfl, rfl⟩
    · exact .inr rfl
  · exact .inr rfl

theorem commit_cases (failure : Option Residue) :
    (∃ data, c.working = some data ∧ c.commit failure = (true, ⟨data, none⟩)) ∨
      ∃ c', c.commit failure = (false, c') ∧ (c'.working = none ∨ c' = c) := by
  obtain ⟨durable, _ | data⟩ := c
  · exact .inr ⟨_, rfl, .inl rfl⟩
  rcases failure with _ | _ | _ | _
  · exact .inl ⟨data, rfl, rfl⟩
  · exact .inr ⟨_, rfl, .inr rfl⟩
  · exact .inr ⟨_, rfl, .inl rfl⟩
  · exact .inr ⟨_, rfl, .inl rfl⟩

theorem rollback_cases (failure : Option Residue) :
    c.working.isSome ∧ c.rollback failure = (true, ⟨c.durable, none⟩) ∨
      ∃ c', c.rollback failure = (false, c') := by
  obtain ⟨durable, _ | data⟩ := c
  · exact .inr ⟨_, rfl⟩
  rcases failure with _ | _ | _ | _
  · exact .inl ⟨rfl, rfl⟩
  · exact .inr ⟨_, rfl⟩
  · exact .inr ⟨_, rfl⟩
  · exact .inr ⟨_, rfl⟩

section Maps

variable {E : Type} (f : D → E)

def map (c : Connection D) : Connection E := ⟨f c.durable, c.working.map f⟩

theorem visible_map : (c.map f).visible = f c.visible := by
  obtain ⟨durable, _ | data⟩ := c <;> rfl

theorem isAutocommit_map : (c.map f).isAutocommit = c.isAutocommit := by
  obtain ⟨durable, _ | data⟩ := c <;> rfl

theorem execute_map {g : E → E} {h : D → D} (same : ∀ data, g (f data) = f (h data)) :
    (c.map f).execute g = (c.execute h).map f := by
  obtain ⟨durable, _ | data⟩ := c
  · exact congrArg (Connection.mk · none) (same durable)
  · exact congrArg (fun data => Connection.mk (f durable) (some data)) (same data)

theorem commit_map (failure : Option Residue) :
    (c.map f).commit failure = ((c.commit failure).1, (c.commit failure).2.map f) := by
  obtain ⟨durable, _ | data⟩ := c
  · rfl
  · rcases failure with _ | _ | _ | _ <;> rfl

end Maps

end Connection

end Grotto.Base.Transactions
