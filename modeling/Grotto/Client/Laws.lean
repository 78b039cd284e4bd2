/- GID: Grotto/Client/Laws
   digest: What the client relies on about rosters and pending commits. -/

import Grotto.Client.Cleartext
import Grotto.Client.Groups

set_option autoImplicit false

namespace Grotto.Client.Laws

open Format.Varint (Bytes)
open Library Groups

/-- A pending commit is made by building a commit and ends by being applied or discarded; until
then epoch and roster stay. -/
structure PendingLaws (mls : Mls) : Prop where
  created : ∀ {client id seed group}, mls.createGroupWithId client id seed = .ok group →
    mls.hasPendingCommit group = false
  joined : ∀ {client identities packages message group},
    mls.joinGroup client identities packages message = .ok group → mls.hasPendingCommit group = false
  encrypted : ∀ {group plaintext aad seed message after},
    mls.encryptApplicationMessage group plaintext aad seed = (.ok message, after) →
    mls.hasPendingCommit after = mls.hasPendingCommit group ∧
      mls.currentEpoch after = mls.currentEpoch group ∧ mls.roster after = mls.roster group
  committed : ∀ {identities group package aad seed made after},
    mls.commitAdd identities group package aad seed = (.ok made, after) →
    mls.hasPendingCommit after = true ∧ mls.currentEpoch after = mls.currentEpoch group ∧
      mls.roster after = mls.roster group
  cleared : ∀ group, mls.hasPendingCommit (mls.clearPendingCommit group) = false ∧
    mls.currentEpoch (mls.clearPendingCommit group) = mls.currentEpoch group ∧
    mls.roster (mls.clearPendingCommit group) = mls.roster group
  applied : ∀ {identities group after}, mls.applyPendingCommit identities group = (.ok (), after) →
    mls.hasPendingCommit group = true ∧ mls.hasPendingCommit after = false
  processed : ∀ {identities group message received after},
    mls.processIncomingMessage identities group message = (.ok received, after) →
    mls.hasPendingCommit after = true → mls.hasPendingCommit group = true

/-- Groups start with their creator, a commit adds the member of its key package and no other, and
messages of others leave the outcome of a pending commit as it is. -/
structure RosterLaws (mls : Mls) (identity : mls.MlsClient → SigningIdentity) : Prop where
  created : ∀ {client id seed group}, mls.createGroupWithId client id seed = .ok group →
    members group = [identity client]
  committed : ∀ {identities group package aad seed made after},
    mls.commitAdd identities group package aad seed = (.ok made, after) →
    ∀ identities' next, mls.applyPendingCommit identities' after = (.ok (), next) →
      ∃ added, mls.keyPackageIdentity package = some added ∧
        ∀ member, member ∈ members next ↔ member ∈ members group ∨ member = added
  processed : ∀ {identities group message received after},
    mls.processIncomingMessage identities group message = (.ok received, after) →
    ∀ identities' next, mls.applyPendingCommit identities' after = (.ok (), next) →
      ∃ identities'' before, mls.applyPendingCommit identities'' group = (.ok (), before) ∧
        members next = members before

section Cleartext

variable {identities : Provider}

open Cleartext

theorem commitAdd_ok {g after : Group} {package : Message} {aad : Bytes}
    {made : Message × List Message} (built : g.commitAdd identities package aad = (.ok made, after)) :
    ∃ m, package.kind = .keyPackage ∧ package.members = [m] ∧ after = { g with pending := some m } := by
  unfold Group.commitAdd at built
  split at built
  · cases built
  rename_i kind
  split at built
  · cases built
  rename_i m found
  refine ⟨m, not_not.mp kind, ?_, ?_⟩
  · unfold Group.admitted at found
    split at found
    · rename_i only listed
      split at found
      · cases found
      · split at found
        · rw [listed, Except.ok.inj found]
        · cases found
    · cases found
  · exact (Prod.mk.inj built).2.symm

theorem process_ok {g after : Group} {message : Message} {received : Received}
    (processed : g.process identities message = (.ok received, after)) :
    after = g ∨ ∃ m, after = g.add m := by
  unfold Group.process at processed
  split at processed
  · cases processed
  split at processed
  · exact .inl (Prod.mk.inj processed).2.symm
  · split at processed
    · cases processed
    · exact .inr ⟨_, (Prod.mk.inj processed).2.symm⟩
  · cases processed

theorem applyPending_ok {g after : Group} (applied : g.applyPending = (.ok (), after)) :
    ∃ m, g.pending = some m ∧ after = g.add m := by
  unfold Group.applyPending at applied
  split at applied
  · cases applied
  · rename_i m pending
    exact ⟨m, pending, (Prod.mk.inj applied).2.symm⟩

theorem join_ok {client : Member} {message : Message} {g : Group}
    (joined : Group.join client identities message = .ok g) : g.pending = none := by
  unfold Group.join at joined
  split at joined
  · cases joined
  · split at joined
    · cases joined
      rfl
    · cases joined

theorem members_eq (g : mls.Group) : members g = (Group.members g).map Member.identity := by
  change (Group.roster g).map Prod.snd = _
  unfold Group.roster
  rw [List.map_map]
  have split : (Prod.snd ∘ fun entry : Member × Nat => (entry.2, entry.1.identity)) =
      Member.identity ∘ Prod.fst := rfl
  rw [split, ← List.map_map, List.zipIdx_map_fst]

theorem pendingLaws_cleartext : PendingLaws mls where
  created created := by
    cases created
    rfl
  joined joined := by
    change Option.isSome _ = false
    rw [join_ok joined]
    rfl
  encrypted sealed := by
    cases sealed
    exact ⟨rfl, rfl, rfl⟩
  committed built := by
    obtain ⟨m, -, -, rfl⟩ := commitAdd_ok built
    exact ⟨rfl, rfl, rfl⟩
  cleared _ := ⟨rfl, rfl, rfl⟩
  applied applied := by
    obtain ⟨m, pending, rfl⟩ := applyPending_ok applied
    exact ⟨congrArg Option.isSome pending, rfl⟩
  processed processed held := by
    rcases process_ok processed with rfl | ⟨m, rfl⟩
    · exact held
    · cases held

theorem rosterLaws_cleartext : RosterLaws mls Member.identity where
  created created := by
    cases created
    rfl
  committed := by
    intro identities group package aad seed made after built identities' next applied
    obtain ⟨m, kind, only, rfl⟩ := commitAdd_ok built
    have merged : Group.applyPending { group with pending := some m } = (.ok (), next) := applied
    obtain ⟨m', pending, rfl⟩ := applyPending_ok merged
    obtain rfl := Option.some.inj pending
    refine ⟨m.identity, ?_, fun member => ?_⟩
    · dsimp only [mls]
      rw [kind, only]
    · have grown : members _ = _ := members_eq (Group.add { group with pending := some m } m)
      have before : members _ = _ := members_eq group
      rw [grown, before]
      simp [Group.add]
  processed := by
    intro identities group message received after processed identities' next applied
    rcases process_ok processed with rfl | ⟨m, rfl⟩
    · exact ⟨identities', next, applied, rfl⟩
    · have merged : Group.applyPending (Group.add group m) = (.ok (), next) := applied
      obtain ⟨m', pending, -⟩ := applyPending_ok merged
      cases pending

end Cleartext

end Grotto.Client.Laws
