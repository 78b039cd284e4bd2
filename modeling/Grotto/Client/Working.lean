/- GID: Grotto/Client/Working
   digest: Storage calls and transactions on a machine where none of them fails. -/

import Grotto.Client.Habits

set_option autoImplicit false

namespace Grotto.Client.Working

open Protocol.Records
open Base.Program.Local
open Contacts Library Tables
open Calls Groups Effects Habits

variable {mls : Mls} {α : Type}

def Works (here : Surroundings mls) : Prop := ∀ n, here.fault n = false

structure Stands (owner : Bool) (s : Session mls) : Prop where
  owner : s.owner = owner
  poisoned : s.poisoned = false

variable {here : Surroundings mls} {s : Session mls} {owner : Bool}

section Connection

/-- However it ends, the computation neither opens nor closes a transaction. -/
def Steady (m : Service mls α) : Prop :=
  ∀ s, m.Ends s fun _ t => t.owner = s.owner ∧ t.poisoned = s.poisoned

/-- To leave the connection's transaction as it is, with no bound on the errors. -/
def steadily : Manner mls where
  moves s t := t.owner = s.owner ∧ t.poisoned = s.poisoned
  raises _ := True
  stay _ := ⟨rfl, rfl⟩
  join _ _ _ first rest := ⟨rest.1.trans first.1, rest.2.trans first.2⟩
  counts _ _ := ⟨rfl, rfl⟩
  caches _ _ := ⟨rfl, rfl⟩
  storage _ := trivial
  library _ := trivial
  encoding := trivial
  decoding := trivial
  texts _ _ := trivial

theorem steady_of_minds {m : Service mls α} (minds : m.Minds steadily.toHabit) : Steady m := fun s =>
  (minds s).mono fun _ _ ended => ended.1

end Connection

section Statements

theorem returns_call (works : Works here) (stands : Stands owner s) :
    (call : Service mls Unit).Returns here s fun _ t => Keeps s t ∧ Stands owner t := by
  refine ⟨(), { s with calls := s.calls + 1 }, ?_, ⟨rfl, rfl⟩, ⟨stands.owner, stands.poisoned⟩⟩
  unfold call
  rw [stands.poisoned, works]
  rfl

theorem returns_query (works : Works here) (stands : Stands owner s) (read : Store mls → α) :
    (query read).Returns here s fun a t => a = read s.store ∧ Keeps s t ∧ Stands owner t := by
  refine (returns_call works stands).bind fun _ t called => ?_
  refine returns_get (returns_pure ⟨?_, called⟩)
  rw [called.1.store]

theorem returns_update (works : Works here) (stands : Stands owner s)
    (write : Store mls → Store mls) :
    (update write).Returns here s fun _ t =>
      t.store = write s.store ∧ t.groups = s.groups ∧ Stands owner t := by
  refine (returns_call works stands).bind fun _ t called => ?_
  refine returns_modify ⟨?_, called.1.groups, called.2.owner, called.2.poisoned⟩
  rw [← called.1.store]

variable {β : Type} {f : α → Service mls β} {post : β → Session mls → Prop} {a : α}

theorem returns_require {e : Error} {o : Option α} (found : o = some a)
    (rest : (f a).Returns here s post) : (require e o >>= f).Returns here s post := by
  rw [found]
  exact rest

theorem returns_liftStore {r : Except StoreError α} (value : r = .ok a)
    (rest : (f a).Returns here s post) : (liftStore r >>= f).Returns here s post := by
  rw [value]
  exact rest

end Statements

section Transactions

variable {post : α → Session mls → Prop} {body : Service mls α}

theorem returns_begin (works : Works here) (stands : Stands false s) :
    (begin : Service mls Unit).Returns here s fun _ t => Keeps s t ∧ Stands true t := by
  refine returns_get ?_
  rw [stands.poisoned, stands.owner]
  refine (returns_call works stands).bind fun _ t called => ?_
  exact returns_modify ⟨⟨called.1.store, called.1.groups⟩, rfl, called.2.poisoned⟩

theorem returns_commit (works : Works here) (stands : Stands true s) :
    (commit : Service mls Unit).Returns here s fun _ t => Keeps s t ∧ Stands false t := by
  refine (returns_call works stands).bind fun _ t called => ?_
  exact returns_modify ⟨⟨called.1.store, called.1.groups⟩, rfl, called.2.poisoned⟩

private theorem returns_committed (works : Works here) {t : Session mls}
    (inner : body.Returns here t fun a u => Stands true u ∧
      ∀ v, Keeps u v → Stands false v → post a v) :
    (do let value ← body; commit; pure value : Service mls α).Returns here t post := by
  refine inner.bind fun a u reached => ?_
  refine (returns_commit works reached.1).bind fun _ v closed => ?_
  exact returns_pure (reached.2 v closed.1 closed.2)

theorem returns_transaction (works : Works here) (stands : Stands false s)
    (inner : ∀ t, Keeps s t → Stands true t → body.Returns here t fun a u => Stands true u ∧
      ∀ v, Keeps u v → Stands false v → post a v) : (transaction body).Returns here s post := by
  obtain ⟨_, t, opening, keeps, inside⟩ := returns_begin works stands
  obtain ⟨a, u, closing, holds⟩ := returns_committed works (inner t keeps inside)
  refine ⟨a, u, ?_, holds⟩
  unfold transaction
  rw [opening]
  dsimp only
  rw [closing]

end Transactions

section Groups

variable {room : RoomId} {group : mls.Group}

def Known (store : Store mls) (room : RoomId) (group : mls.Group) : Prop :=
  store.mlsGroups room = some group ∧ ∀ member ∈ members group, store.verifies member = true

theorem returns_groupMut (works : Works here) (stands : Stands owner s) (coherent : Coherent s)
    (known : Known s.store room group) :
    (groupMut room : Service mls mls.Group).Returns here s fun found t =>
      found = group ∧ t.store = s.store ∧ Coherent t ∧ t.groups.lookup room = some group ∧
        Stands owner t := by
  have reached := (ends_groupMut coherent : (groupMut room).Ends s _) here
  have steady := (steady_of_minds minds_groupMut : Steady (groupMut room)) s here
  rcases read : groupMut room here s with ⟨x | found, t⟩
  · obtain ⟨-, -, poisoned | ⟨k, -, faulty⟩ | ⟨member, listed, refused⟩⟩ := unread_of_error read known.1
    · cases stands.poisoned.symm.trans poisoned
    · cases (works _).symm.trans faulty
    · cases (known.2 member listed).symm.trans refused
  rw [read] at reached steady
  obtain ⟨store, kept, found'⟩ := reached
  obtain ⟨held, cached⟩ := found' found rfl
  obtain rfl := Option.some.inj (held.symm.trans known.1)
  exact ⟨_, t, read, rfl, store, kept, cached, steady.1.trans stands.owner, steady.2.trans stands.poisoned⟩

end Groups

end Grotto.Client.Working
