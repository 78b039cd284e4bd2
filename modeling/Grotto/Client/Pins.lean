/- GID: Grotto/Client/Pins
   digest: Pinned contacts, and rosters that hold pinned members only. -/

import Grotto.Client.Laws
import Grotto.Client.History

set_option autoImplicit false

namespace Grotto.Client.Pins

open Format.Varint (Bytes)
open Protocol.Records Protocol.Hex
open Contacts Library Tables Calls
open Groups Effects Delivery Changes
open Frames Outbox Machine
open Laws
open History (joined reachable_joined)

variable {mls : Mls} {s t : Store mls} {e : Engine mls}

def Pinned (s : Store mls) (identity : SigningIdentity) : Prop :=
  ∃ (user : UserId) (row : ContactRow), identity.identifier = some user.bytes.toList ∧
    s.verifiedContacts user = some row ∧ row.mlsKey = identity.signatureKey

variable {user : UserId} {row : ContactRow}

section Verification

variable {identity : SigningIdentity}

theorem verify_ok {bytes : Bytes} (verified : s.verify identity = .ok bytes) :
    identity.identifier = some bytes ∧ Pinned s identity := by
  unfold Store.verify at verified
  split at verified
  · cases verified
  rename_i found named
  split at verified
  · rename_i length
    split at verified
    · cases verified
    rename_i row pinned
    split at verified
    · cases verified
    · rename_i key
      rw [← Except.ok.inj verified]
      exact ⟨named, ⟨⟨⟨found, length⟩⟩, row, named, pinned, not_not.mp key⟩⟩
  · cases verified

theorem verifies_iff : s.verifies identity = true ↔ Pinned s identity := by
  constructor
  · intro verifies
    unfold Store.verifies at verifies
    cases verified : s.verify identity with
    | ok bytes => exact (verify_ok verified).2
    | error _ =>
      rw [verified] at verifies
      cases verifies
  · rintro ⟨user, row, named, pinned, key⟩
    unfold Store.verifies Store.verify
    rw [named]
    dsimp only
    rw [dif_pos user.bytes.length_toList]
    have same : (⟨⟨user.bytes.toList, user.bytes.length_toList⟩⟩ : UserId) = user := rfl
    rw [same, pinned]
    dsimp only
    rw [if_neg (not_not.mpr key)]
    rfl

theorem Pinned.congr (contacts : t.verifiedContacts = s.verifiedContacts) :
    Pinned t identity ↔ Pinned s identity := by
  unfold Pinned
  rw [contacts]

theorem insertContact_kept {user other : UserId} {row old : ContactRow}
    (held : s.verifiedContacts other = some old) :
    (s.insertContact user row).verifiedContacts other = some old := by
  unfold Store.insertContact
  split
  · exact held
  rename_i missing
  refine (Function.update_of_ne ?_ _ _).trans held
  rintro rfl
  rw [held] at missing
  exact missing rfl

theorem Pinned.insertContact (pinned : Pinned s identity) :
    Pinned (s.insertContact user row) identity := by
  obtain ⟨other, old, named, held, key⟩ := pinned
  exact ⟨other, old, named, insertContact_kept held, key⟩

end Verification

variable {card : ContactCard}

section Cards

variable {asked more : UserCommand → Prop} {asked : UserCommand → Prop}

/-- Every contact row is the card of its user, vouched for by an order or the client itself. -/
def Carded (e : Engine mls) (asked : UserCommand → Prop) (s : Store mls) : Prop :=
  ∀ user row, s.verifiedContacts user = some row → ∃ card : ContactCard, card.user = user ∧
    row = ⟨card.mlsKey.toList, card.bytes⟩ ∧ Vouched e asked card

theorem Vouched.mono (extra : ∀ order, asked order → more order)
    (vouched : Vouched e asked card) : Vouched e more card := by
  cases vouched with
  | given order parsed matching valid => exact .given (extra _ order) parsed matching valid
  | own mine valid => exact .own mine valid

theorem Carded.mono (extra : ∀ order, asked order → more order)
    (carded : Carded e asked s) : Carded e more s := by
  intro user row held
  obtain ⟨card, named, shape, vouched⟩ := carded user row held
  exact ⟨card, named, shape, Vouched.mono extra vouched⟩

theorem Carded.insertContact (carded : Carded e asked s) (vouched : Vouched e asked card) :
    Carded e asked (s.insertContact card.user ⟨card.mlsKey.toList, card.bytes⟩) := by
  intro user row held
  unfold Store.insertContact at held
  split at held
  · exact carded user row held
  by_cases same : user = card.user
  · rw [same] at held ⊢
    have found := (Function.update_self card.user _ s.verifiedContacts).symm.trans held
    exact ⟨card, rfl, (Option.some.inj found).symm, vouched⟩
  · exact carded user row ((Function.update_of_ne same _ _).symm.trans held)

theorem Vouched.signed (vouched : Vouched e asked card) :
    e.crypto.verifyStrict card.transportKey card.transcript card.signature = true ∧
      (card = e.ownCard ∨ ∃ text fingerprint, asked (.contactImport text fingerprint) ∧
        parseFingerprintHex fingerprint = .ok (e.crypto.sha256 card.bytes).toList) := by
  cases vouched with
  | @given text fingerprint order parsed matching _ =>
    refine ⟨ContactCard.parse_verifies parsed, .inr ⟨text, fingerprint, order, ?_⟩⟩
    rw [← matching]
    exact parseFingerprintHex_hexText (by simp)
  | own mine valid =>
    obtain ⟨read, parsed⟩ := valid
    have same := ContactCard.parse_encode parsed
    rw [same] at parsed
    exact ⟨ContactCard.parse_verifies parsed, .inl mine⟩

end Cards

variable {group : mls.Group} {target : Option UserId}

section Rosters

/-- The members of a group, and those its pending commit leads to, are pinned. -/
def GroupVetted (s : Store mls) (group : mls.Group) : Prop :=
  (∀ member ∈ members group, Pinned s member) ∧
  ∀ identities next, mls.applyPendingCommit identities group = (.ok (), next) →
    ∀ member ∈ members next, Pinned s member

def Certified (s : Store mls) (target : Option UserId) (package : Bytes) : Prop :=
  ∃ user message identity, target = some user ∧ fromWire mls package = some message ∧
    mls.keyPackageIdentity message = some identity ∧
    identity.identifier = some user.bytes.toList ∧ Pinned s identity

structure Vetted (s : Store mls) : Prop where
  groups : ∀ room group, s.mlsGroups room = some group → GroupVetted s group
  packages : ∀ row ∈ s.deliveryIntents, ∀ package, row.package = some package →
    Certified s row.target package

theorem GroupVetted.mono (pins : ∀ identity, Pinned s identity → Pinned t identity)
    (vetted : GroupVetted s group) : GroupVetted t group :=
  ⟨fun member listed => pins _ (vetted.1 member listed),
    fun identities next applied member listed => pins _ (vetted.2 identities next applied member listed)⟩

theorem Certified.mono {package : Bytes} (pins : ∀ identity, Pinned s identity → Pinned t identity)
    (reserved : Certified s target package) : Certified t target package := by
  obtain ⟨user, message, identity, aimed, read, leaf, named, pinned⟩ := reserved
  exact ⟨user, message, identity, aimed, read, leaf, named, pins _ pinned⟩

theorem Vetted.update (vetted : Vetted s) (pins : ∀ identity, Pinned s identity → Pinned t identity)
    (groups : ∀ room group, t.mlsGroups room = some group →
      s.mlsGroups room = some group ∨ GroupVetted s group)
    (packages : ∀ row ∈ t.deliveryIntents, row.package = none ∨
      (∃ old ∈ s.deliveryIntents, old.package = row.package ∧ old.target = row.target) ∨
      ∃ package, row.package = some package ∧ Certified s row.target package) : Vetted t where
  groups room group held := by
    rcases groups room group held with old | new
    · exact (vetted.groups room group old).mono pins
    · exact new.mono pins
  packages row listed package installed := by
    rcases packages row listed with none | ⟨old, present, same, target⟩ | ⟨other, found, reserved⟩
    · rw [none] at installed
      cases installed
    · rw [← target]
      exact (vetted.packages old present package (same.trans installed)).mono pins
    · obtain rfl := Option.some.inj (installed.symm.trans found)
      exact reserved.mono pins

theorem groups_writeGroup {room other : RoomId} {group found : mls.Group}
    (held : (s.writeGroup room group).mlsGroups other = some found) :
    s.mlsGroups other = some found ∨ found = group := by
  by_cases same : other = room
  · rw [same, Store.writeGroup_self] at held
    exact .inr (Option.some.inj held).symm
  · rw [Store.writeGroup_of_ne s same] at held
    exact .inl held

theorem groupVetted_settled (laws : PendingLaws mls) (settled : mls.hasPendingCommit group = false)
    (pinned : ∀ member ∈ members group, Pinned s member) : GroupVetted s group := by
  refine ⟨pinned, fun identities next applied => ?_⟩
  have pending := (laws.applied applied).1
  rw [settled] at pending
  cases pending

theorem members_congr {group other : mls.Group} (same : mls.roster other = mls.roster group) :
    members other = members group := by
  unfold members
  rw [same]

end Rosters

variable {epoch : UInt64} {request : Request}

section Operations

variable {room : RoomId} {identity : mls.MlsClient → SigningIdentity} {package body welcome aad : Bytes}

def Regrouped (s t : Store mls) : Prop :=
  ∀ room group, t.mlsGroups room = some group → s.mlsGroups room = some group ∨ GroupVetted s group

theorem regrouped_same (same : t.mlsGroups = s.mlsGroups) : Regrouped s t := by
  intro other group held
  rw [same] at held
  exact .inl held

theorem regrouped_writeGroup (vetted : GroupVetted s group) :
    Regrouped s (s.writeGroup room group) := by
  intro other found held
  rcases groups_writeGroup held with old | rfl
  · exact .inl old
  · exact .inr vetted

theorem regrouped_founds {unread : Prop} (laws : PendingLaws mls) (rosters : RosterLaws mls identity)
    (own : Pinned s (identity e.client)) (founds : Founds e.client unread s room t) : Regrouped s t := by
  rcases founds with ⟨_, -, rfl⟩ | ⟨seed, group, -, created, rfl⟩
  · exact regrouped_same rfl
  · refine regrouped_writeGroup (groupVetted_settled laws (laws.created created) fun member listed => ?_)
    rw [rosters.created created] at listed
    rw [List.mem_singleton.mp listed]
    exact own

theorem regrouped_joins {unread : Prop} {welcome : Bytes} (laws : PendingLaws mls)
    (joins : Joins e.client unread s room welcome t) : Regrouped s t := by
  rcases joins with ⟨_, -, rfl⟩ | ⟨_, _, group, -, -, -, joined, -, verified, rfl⟩
  · exact regrouped_same rfl
  · exact regrouped_writeGroup (groupVetted_settled laws (laws.joined joined) fun member listed =>
      verifies_iff.mp (verified member listed))

theorem regrouped_encrypts {plaintext aad bytes : Bytes} (laws : PendingLaws mls)
    (vetted : Vetted s) (encrypts : Encrypts s room plaintext aad epoch bytes t) : Regrouped s t := by
  obtain ⟨group, _, _, after, held, free, encrypted, -, -, rfl⟩ := encrypts
  obtain ⟨pending, -, roster⟩ := laws.encrypted encrypted
  refine regrouped_writeGroup (groupVetted_settled laws (pending.trans free) ?_)
  rw [members_congr roster]
  exact (vetted.groups room group held).1

theorem committed_members (laws : PendingLaws mls)
    (rosters : RosterLaws mls identity) (reserved : Certified s target package)
    (adds : Adds s room package aad epoch body welcome t) :
    ∃ group after user added, s.mlsGroups room = some group ∧ t = s.writeGroup room after ∧
      mls.hasPendingCommit after = true ∧ members after = members group ∧
      target = some user ∧ added.identifier = some user.bytes.toList ∧ Pinned s added ∧
      ∀ identities next, mls.applyPendingCommit identities after = (.ok (), next) →
        ∀ member, member ∈ members next ↔ member ∈ members group ∨ member = added := by
  obtain ⟨group, _, found, _, _, _, _, after, held, -, read, -, built, -, -, -, -, rfl⟩ := adds
  obtain ⟨user, message, added, aimed, parsed, leaf, named, pinned⟩ := reserved
  obtain rfl := Option.some.inj (read.symm.trans parsed)
  obtain ⟨pending, -, roster⟩ := laws.committed built
  refine ⟨group, after, user, added, held, rfl, pending, members_congr roster, aimed, named, pinned, ?_⟩
  intro identities next applied
  obtain ⟨other, same, outcome⟩ := rosters.committed built identities next applied
  obtain rfl := Option.some.inj (same.symm.trans leaf)
  exact outcome

theorem regrouped_adds (laws : PendingLaws mls)
    (rosters : RosterLaws mls identity) (vetted : Vetted s) (reserved : Certified s target package)
    (adds : Adds s room package aad epoch body welcome t) : Regrouped s t := by
  obtain ⟨group, after, user, added, held, rfl, -, same, -, -, pinned, outcome⟩ :=
    committed_members laws rosters reserved adds
  refine regrouped_writeGroup ⟨?_, fun identities next applied member listed => ?_⟩
  · rw [same]
    exact (vetted.groups room group held).1
  · rcases (outcome identities next applied member).mp listed with old | rfl
    · exact (vetted.groups room group held).1 member old
    · exact pinned

theorem regrouped_forgets (laws : PendingLaws mls) (vetted : Vetted s)
    (forgets : Forgets s request t) : Regrouped s t := by
  unfold Forgets at forgets
  split at forgets
  · split at forgets
    · obtain ⟨group, held, rfl⟩ := forgets
      obtain ⟨settled, -, roster⟩ := laws.cleared group
      refine regrouped_writeGroup (groupVetted_settled laws settled ?_)
      rw [members_congr roster]
      exact (vetted.groups _ group held).1
    · exact regrouped_same (by rw [forgets])
  · exact regrouped_same (by rw [forgets])

theorem regrouped_merges (laws : PendingLaws mls) (vetted : Vetted s) (merges : Merges s room t) :
    Regrouped s t := by
  obtain ⟨group, identities, after, held, -, applied, rfl⟩ := merges
  refine regrouped_writeGroup (groupVetted_settled laws (laws.applied applied).2 ?_)
  exact (vetted.groups room group held).2 identities after applied

theorem regrouped_processes {event : Event} {processed : Processed} (rosters : RosterLaws mls identity)
    (vetted : Vetted s) (processes : Processes s event processed t) : Regrouped s t := by
  obtain ⟨_, group, _, _, after, _, _, _, -, -, held, -, -, received, -, -, -, verified, -, rfl⟩ :=
    processes
  refine regrouped_writeGroup ⟨fun member listed => verifies_iff.mp (verified member listed), ?_⟩
  intro identities next applied
  obtain ⟨others, before, outcome, same⟩ := rosters.processed received identities next applied
  rw [same]
  exact (vetted.groups _ group held).2 others before outcome

end Operations

variable {id : MessageId}

section Changes

variable {asked : UserCommand → Prop} {known : MessageId × Request → Response → Prop}
variable {fresh : MessageId → Prop} {identity : mls.MlsClient → SigningIdentity}

def Repackaged (s t : Store mls) : Prop :=
  ∀ row ∈ t.deliveryIntents, row.package = none ∨
    (∃ old ∈ s.deliveryIntents, old.package = row.package ∧ old.target = row.target) ∨
    ∃ package, row.package = some package ∧ Certified s row.target package

theorem repackaged_kept (kept : ∀ row ∈ t.deliveryIntents, ∃ old ∈ s.deliveryIntents,
    old.package = row.package ∧ old.target = row.target) : Repackaged s t :=
  fun row listed => .inr (.inl (kept row listed))

theorem repackaged_same (same : t.deliveryIntents = s.deliveryIntents) : Repackaged s t := by
  refine repackaged_kept fun row listed => ⟨row, ?_, rfl, rfl⟩
  rw [← same]
  exact listed

theorem repackaged_deleteIntents (same : t.deliveryIntents = s.deliveryIntents) :
    Repackaged s (t.deleteIntents id) := by
  refine repackaged_kept fun row listed => ⟨row, ?_, rfl, rfl⟩
  rw [← same]
  exact (List.mem_filter.mp listed).1

theorem repackaged_rewritten {chosen : IntentRow → Prop} [DecidablePred chosen]
    {change : IntentRow → IntentRow}
    (rewritten : t.deliveryIntents =
      s.deliveryIntents.map fun row => if chosen row then change row else row)
    (columns : ∀ row, chosen row → row.package = (change row).package ∧ row.target = (change row).target ∨
      ∃ package, (change row).package = some package ∧ Certified s (change row).target package) :
    Repackaged s t := by
  intro row listed
  rw [rewritten] at listed
  obtain ⟨old, present, rfl⟩ := List.mem_map.mp listed
  split
  · rename_i marked
    rcases columns old marked with same | reserved
    · exact .inr (.inl ⟨old, present, same⟩)
    · exact .inr (.inr reserved)
  · exact .inr (.inl ⟨old, present, rfl, rfl⟩)

/-- The contacts stay, groups that are new are vetted, and packages that are new are reserved. -/
structure Amends (s t : Store mls) : Prop where
  contacts : t.verifiedContacts = s.verifiedContacts
  groups : Regrouped s t
  packages : Repackaged s t

theorem Amends.vetted (vetted : Vetted s) (amends : Amends s t) : Vetted t :=
  vetted.update (fun _ pinned => (Pinned.congr amends.contacts).mpr pinned) amends.groups amends.packages

theorem Amends.congr {u : Store mls} (amends : Amends s u)
    (contacts : t.verifiedContacts = u.verifiedContacts) (groups : t.mlsGroups = u.mlsGroups)
    (intents : t.deliveryIntents = u.deliveryIntents) : Amends s t := by
  refine ⟨contacts.trans amends.contacts, fun room group held => ?_, fun row listed => ?_⟩
  · rw [groups] at held
    exact amends.groups room group held
  · rw [intents] at listed
    exact amends.packages row listed

theorem amends_same (contacts : t.verifiedContacts = s.verifiedContacts)
    (groups : t.mlsGroups = s.mlsGroups) (intents : t.deliveryIntents = s.deliveryIntents) :
    Amends s t :=
  ⟨contacts, regrouped_same groups, repackaged_same intents⟩

theorem amends_regroups (regroups : Regroups s t) (groups : Regrouped s t) : Amends s t := by
  refine ⟨?_, groups, repackaged_same ?_⟩
  · rw [regroups]
  · rw [regroups]

theorem amends_journaled {u : Store mls} (journals : Journals u id request t)
    (amends : Amends s u) : Amends s t := by
  rw [journals_rest journals]
  exact amends.congr rfl rfl rfl

theorem amends_of_completes {response : Response} (laws : PendingLaws mls)
    (rosters : RosterLaws mls identity) (own : Pinned s (identity e.client)) (vetted : Vetted s)
    (completes : Completes e s id request response t) : Amends s t := by
  cases completes with
  | create founds named =>
    rw [creates_rest founds named]
    have groups := regrouped_founds laws rosters own founds
    exact ⟨rfl, fun room group held => groups room group held, repackaged_same rfl⟩
  | close _ => exact amends_same rfl rfl rfl
  | reserve read leaf pinned one =>
    obtain ⟨named, known⟩ := verify_ok pinned
    refine ⟨rfl, regrouped_same rfl, repackaged_rewritten rfl fun row marked => .inr ⟨_, rfl, ?_⟩⟩
    exact ⟨_, _, _, (of_decide_eq_true marked).2, read, leaf, named, known⟩
  | accept stores =>
    obtain ⟨_, -, -, -, rfl⟩ := stores_cases stores
    exact amends_same rfl rfl rfl
  | @conflict operation _ u _ forgets =>
    have regroups := regroups_forgets forgets
    have groups := regrouped_forgets laws vetted forgets
    have rewritten : (((u.removeOutbox id).deleteHistory id).clearAttempt id).deliveryIntents =
        s.deliveryIntents.map fun row =>
          if row.attempt = some id then { row with attempt := none } else row := by
      rw [regroups]
      rfl
    refine ⟨?_, fun room group held => groups room group held,
      repackaged_rewritten rewritten fun _ _ => .inl ⟨rfl, rfl⟩⟩
    rw [regroups]
    rfl
  | @refuse _ _ u _ forgets =>
    have regroups := regroups_forgets forgets
    have groups := regrouped_forgets laws vetted forgets
    refine ⟨?_, fun room group held => groups room group held, ?_⟩
    · rw [regroups]
      rfl
    · exact repackaged_deleteIntents (by rw [regroups])

theorem amends_of_builds {row : IntentRow} {parent : Nat} (laws : PendingLaws mls)
    (rosters : RosterLaws mls identity) (vetted : Vetted s) (planned : row ∈ s.deliveryIntents)
    (builds : Builds e s row id parent request t) : Amends s t := by
  cases builds with
  | reservation _ _ => exact amends_same rfl rfl rfl
  | addition target package adds =>
    have reserved := vetted.packages row planned _ package
    exact amends_regroups (regroups_adds adds) (regrouped_adds laws rosters vetted reserved adds)
  | message _ _ _ _ encrypts =>
    have amends := amends_regroups (regroups_encrypts encrypts) (regrouped_encrypts laws vetted encrypts)
    refine amends.congr ?_ ?_ frame_recordPlaintext.intents
    · rw [recordPlaintext_rest]
    · rw [recordPlaintext_rest]

theorem amends_of_applies {event : Event} (laws : PendingLaws mls) (rosters : RosterLaws mls identity)
    (vetted : Vetted s) (applies : Applies e s event t) : Amends s t := by
  cases applies with
  | @own next mine attempt merges =>
    have merged : Amends s next := by
      split at merges
      · exact amends_regroups (regroups_merges merges) (regrouped_merges laws vetted merges)
      · rw [merges]
        exact amends_same rfl rfl rfl
    refine ⟨merged.contacts, merged.groups, fun row listed => ?_⟩
    exact merged.packages row (List.mem_filter.mp listed).1
  | message _ processes =>
    have amends := amends_regroups (regroups_processes processes)
      (regrouped_processes rosters vetted processes)
    refine amends.congr ?_ ?_ frame_recordPlaintext.intents
    · rw [recordPlaintext_rest]
    · rw [recordPlaintext_rest]
  | commit _ processes =>
    exact amends_regroups (regroups_processes processes) (regrouped_processes rosters vetted processes)

theorem amends_of_commits (laws : PendingLaws mls) (rosters : RosterLaws mls identity)
    (own : Pinned s (identity e.client)) (vetted : Vetted s)
    (commits : Commits e asked known fresh s t) :
    Amends s t ∨ ∃ card : ContactCard, Vouched e asked card ∧
      t = s.insertContact card.user ⟨card.mlsKey.toList, card.bytes⟩ := by
  cases commits with
  | contact vouched _ => exact .inr ⟨_, vouched, rfl⟩
  | command _ _ _ journals => exact .inl (amends_journaled journals (amends_same rfl rfl rfl))
  | intent _ _ inserted =>
    obtain ⟨-, rfl⟩ := insertIntent_rest inserted
    refine .inl ⟨rfl, regrouped_same rfl, fun row listed => ?_⟩
    rcases List.mem_append.mp listed with old | new
    · exact .inr (.inl ⟨row, old, rfl, rfl⟩)
    · rw [List.mem_singleton.mp new]
      exact .inl rfl
  | name named =>
    rw [upsertRoom_rest named]
    exact .inl (amends_same rfl rfl rfl)
  | complete _ _ completes => exact .inl (amends_of_completes laws rosters own vetted completes)
  | receive _ _ _ _ _ _ stores =>
    obtain ⟨_, -, -, -, rfl⟩ := stores_cases stores
    exact .inl (amends_same rfl rfl rfl)
  | attempt planned _ _ _ _ builds journals =>
    have built := amends_journaled journals (amends_of_builds laws rosters vetted planned builds)
    refine .inl ⟨built.contacts, built.groups, fun row listed => ?_⟩
    obtain ⟨old, present, rfl⟩ := List.mem_map.mp listed
    split
    · exact built.packages old present
    · exact built.packages old present
  | welcomes _ _ _ => exact .inl (amends_same rfl rfl rfl)
  | suspend _ _ => exact .inl (amends_same rfl rfl rfl)
  | join _ _ joins =>
    obtain ⟨u, w, ⟨_, joins⟩, -, placed, journals⟩ := joins_rest joins
    refine .inl (amends_journaled journals ⟨?_, fun room group held => ?_, repackaged_same ?_⟩)
    · rw [placed]
    · rw [placed] at held
      exact regrouped_joins laws joins room group held
    · rw [placed]
  | settle _ settles =>
    left
    cases settles with
    | apply applies finishes =>
      have applied := amends_of_applies laws rosters vetted applies
      exact amends_journaled finishes.2 (applied.congr rfl rfl rfl)
    | block _ => exact amends_same rfl rfl rfl
    | reject _ _ finishes => exact amends_journaled finishes.2 (amends_same rfl rfl rfl)

end Changes

section Runs

variable {c d : Process mls} {move : Move mls} {identity : mls.MlsClient → SigningIdentity}

structure Trusted (e : Engine mls) (identity : mls.MlsClient → SigningIdentity) (c : Process mls) :
    Prop where
  regular : Regular e c
  vetted : Vetted c.store
  carded : Carded e c.asked c.store
  own : c.running = true → Pinned c.store (identity e.client)
  resting : Resting c

theorem trusted_off : Trusted e identity (Process.off mls) where
  regular := governed_off _ fun _ _ never => never
  vetted := ⟨nofun, nofun⟩
  carded _ _ held := by cases held
  own on := by cases on
  resting _ := ⟨_, rfl⟩

theorem Carded.own {asked : UserCommand → Prop} (carded : Carded e asked s)
    (held : s.verifiedContacts e.user = some row) (card : row.card = e.ownCard.bytes) :
    Pinned s ⟨some e.user.bytes.toList, e.mlsKey.toList⟩ := by
  obtain ⟨found, -, shape, -⟩ := carded e.user row held
  rw [shape] at card
  have same : found = e.ownCard := ContactCard.bytes_injective card
  refine ⟨e.user, row, rfl, held, ?_⟩
  rw [shape, same]
  rfl

theorem Vetted.insertContact (vetted : Vetted s) : Vetted (s.insertContact user row) := by
  have frame : (s.insertContact user row).mlsGroups = s.mlsGroups ∧
      (s.insertContact user row).deliveryIntents = s.deliveryIntents := by
    unfold Store.insertContact
    split
    · exact ⟨rfl, rfl⟩
    · exact ⟨rfl, rfl⟩
  exact vetted.update (fun _ => Pinned.insertContact) (regrouped_same frame.1) (repackaged_same frame.2)

theorem trusted_start {here : Surroundings mls}
    (mine : identity e.client = ⟨some e.user.bytes.toList, e.mlsKey.toList⟩)
    (trusted : Trusted e identity c) (taken : c.step e (.start here) = some d) :
    Trusted e identity d := by
  have regular := (regular_step trusted.regular taken).1
  have changed : ∀ {result : Except Calls.Error Unit} {session : Session mls},
      startUp e here (opened c.session.store) = (result, session) →
        Vetted session.store ∧ Carded e c.asked session.store := by
    intro result session ends
    rcases (startUp_changes ends).2.1 with same | ⟨vouched, -, inserted⟩
    · rw [same]
      exact ⟨trusted.vetted, trusted.carded⟩
    · have pinned : Vouched e c.asked e.ownCard := Vouched.mono (fun _ never => never.elim) vouched
      rw [inserted]
      exact ⟨trusted.vetted.insertContact, trusted.carded.insertContact pinned⟩
  cases step_takes taken with
  | started _ ends =>
    obtain ⟨row, held, card⟩ := (startUp_changes ends).2.2 rfl
    obtain ⟨vetted, carded⟩ := changed ends
    refine ⟨regular, vetted, carded, fun _ => ?_, nofun⟩
    rw [mine]
    exact carded.own held card
  | refused off ends =>
    obtain ⟨vetted, carded⟩ := changed ends
    exact ⟨regular, vetted, carded, fun on => absurd (off.symm.trans on) (by decide), fun _ => ⟨_, rfl⟩⟩

theorem trusted_moves (laws : PendingLaws mls) (rosters : RosterLaws mls identity)
    (trusted : Trusted e identity c) (on : c.running = true) (moves : Moves e (fun _ => True) c d)
    (orders : ∀ order, c.asked order → d.asked order) :
    Vetted d.store ∧ Carded e d.asked d.store ∧ Pinned d.store (identity e.client) := by
  have own := trusted.own on
  rcases moves with same | commits
  · rw [same]
    exact ⟨trusted.vetted, trusted.carded.mono orders, own⟩
  rcases amends_of_commits laws rosters own trusted.vetted commits with amends | ⟨card, vouched, inserted⟩
  · refine ⟨amends.vetted trusted.vetted, ?_, (Pinned.congr amends.contacts).mpr own⟩
    unfold Carded
    rw [amends.contacts]
    exact trusted.carded.mono orders
  · rw [inserted]
    exact ⟨trusted.vetted.insertContact, (trusted.carded.insertContact vouched).mono orders,
      own.insertContact⟩

theorem trusted_step (laws : PendingLaws mls) (rosters : RosterLaws mls identity)
    (mine : identity e.client = ⟨some e.user.bytes.toList, e.mlsKey.toList⟩)
    (trusted : Trusted e identity c) (taken : c.step e move = some d) : Trusted e identity d := by
  obtain ⟨regular, moves⟩ := regular_step trusted.regular taken
  obtain ⟨resting, started | on | ⟨off, same⟩⟩ := step_running trusted.resting taken
  · obtain ⟨here, rfl⟩ := started
    exact trusted_start mine trusted taken
  · obtain ⟨vetted, carded, own⟩ :=
      trusted_moves laws rosters trusted on moves (step_remembers taken).1
    exact ⟨regular, vetted, carded, fun _ => own, resting⟩
  refine ⟨regular, ?_, ?_, fun on => ?_, resting⟩
  · rw [same]
    exact trusted.vetted
  · rw [same]
    exact trusted.carded.mono (step_remembers taken).1
  · rw [off] at on
    cases on

theorem Reachable.trusted (laws : PendingLaws mls) (rosters : RosterLaws mls identity)
    (mine : identity e.client = ⟨some e.user.bytes.toList, e.mlsKey.toList⟩)
    (reachable : Reachable e c) : Trusted e identity c := by
  obtain ⟨moves, ran⟩ := reachable
  exact run_keeps (fun _ _ _ trusted taken => trusted_step laws rosters mine trusted taken)
    trusted_off ran

theorem contacts_step (laws : PendingLaws mls) (rosters : RosterLaws mls identity)
    (trusted : Trusted e identity c) (held : c.store.verifiedContacts user = some row)
    (taken : c.step e move = some d) : d.store.verifiedContacts user = some row := by
  obtain ⟨-, started | on | ⟨-, same⟩⟩ := step_running trusted.resting taken
  · obtain ⟨here, rfl⟩ := started
    cases step_takes taken
    all_goals
      rename_i session _ ends
      change session.store.verifiedContacts user = some row
      rcases (startUp_changes ends).2.1 with same | ⟨-, -, inserted⟩
      · rw [same]
        exact held
      · rw [inserted]
        exact insertContact_kept held
  · rcases (regular_step trusted.regular taken).2 with same | commits
    · rw [same]
      exact held
    rcases amends_of_commits laws rosters (trusted.own on) trusted.vetted commits
      with amends | ⟨card, -, inserted⟩
    · rw [amends.contacts]
      exact held
    · rw [inserted]
      exact insertContact_kept held
  · rw [same]
    exact held

theorem contacts_run {moves : List (Move mls)} (laws : PendingLaws mls)
    (rosters : RosterLaws mls identity)
    (mine : identity e.client = ⟨some e.user.bytes.toList, e.mlsKey.toList⟩)
    (trusted : Trusted e identity c) (held : c.store.verifiedContacts user = some row)
    (ran : c.run e moves = some d) : d.store.verifiedContacts user = some row := by
  refine (@run_keeps _ e c d
    (fun d => Trusted e identity d ∧ d.store.verifiedContacts user = some row) ?_ moves
    ⟨trusted, held⟩ ran).2
  rintro c move d ⟨trusted, held⟩ taken
  exact ⟨trusted_step laws rosters mine trusted taken, contacts_step laws rosters trusted held taken⟩

theorem commit_adds_target {operation : Append} (laws : PendingLaws mls)
    (rosters : RosterLaws mls identity) (trusted : Trusted e identity c)
    (taken : c.step e move = some d) (commit : operation.contentType = .commit)
    (sent : Carries d.store id (.appendRoomOperation operation))
    (new : ¬Carries c.store id (.appendRoomOperation operation)) :
    ∃ row ∈ c.store.deliveryIntents, ∃ group after user added, row.room = operation.room ∧
      row.target = some user ∧ c.store.mlsGroups operation.room = some group ∧
      d.store.mlsGroups operation.room = some after ∧ mls.hasPendingCommit after = true ∧
      added.identifier = some user.bytes.toList ∧
      ∀ identities next, mls.applyPendingCommit identities after = (.ok (), next) →
        ∀ member, member ∈ members next ↔ member ∈ members group ∨ member = added := by
  rcases (regular_step trusted.regular taken).2 with same | commits
  · rw [same] at sent
    exact absurd sent new
  rcases carries_origin commits sent with old | origin
  · exact absurd old new
  generalize d.store = t at sent commits origin ⊢
  cases origin with
  | command issued orders => cases orders
  | @attempt row _ u v planned _ _ _ builds journals placed =>
    cases builds with
    | addition target package adds =>
      obtain ⟨group, after, user, added, held, rfl, pending, -, aimed, named, -, outcome⟩ :=
        committed_members laws rosters (trusted.vetted.packages row planned _ package) adds
      refine ⟨row, planned, group, after, user, added, rfl, aimed, held, ?_, pending, named, outcome⟩
      rw [placed]
      change v.mlsGroups row.room = some after
      rw [journals_rest journals]
      exact Store.writeGroup_self _ _ _
    | message => cases commit

end Runs

section Trust

variable {identity : mls.MlsClient → SigningIdentity}

/-- Pins never change and each is a signed card whose fingerprint the user gave, or the client's
own; groups, and what their pending commits lead to, hold pinned members only; and a commit adds
the target of its intent. -/
theorem members_pinned (laws : PendingLaws mls) (rosters : RosterLaws mls identity)
    (mine : identity e.client = ⟨some e.user.bytes.toList, e.mlsKey.toList⟩) {c : Process mls}
    (reachable : Reachable e c) :
    (∀ user row, c.store.verifiedContacts user = some row →
      (∀ moves d, c.run e moves = some d → d.store.verifiedContacts user = some row) ∧
      ∃ card : ContactCard, card.user = user ∧ row = ⟨card.mlsKey.toList, card.bytes⟩ ∧
        e.crypto.verifyStrict card.transportKey card.transcript card.signature = true ∧
        (card = e.ownCard ∨ ∃ text fingerprint, .contactImport text fingerprint ∈ c.orders ∧
          parseFingerprintHex fingerprint = .ok (e.crypto.sha256 card.bytes).toList)) ∧
    (∀ room group, c.store.mlsGroups room = some group →
      (∀ member ∈ members group, Pinned c.store member) ∧
      ∀ identities next, mls.applyPendingCommit identities group = (.ok (), next) →
        ∀ member ∈ members next, Pinned c.store member) ∧
    ∀ move d id operation, c.step e move = some d → operation.contentType = .commit →
      Carries d.store id (.appendRoomOperation operation) →
      ¬Carries c.store id (.appendRoomOperation operation) →
      ∃ row ∈ c.store.deliveryIntents, ∃ group after user added, row.room = operation.room ∧
        row.target = some user ∧ c.store.mlsGroups operation.room = some group ∧
        d.store.mlsGroups operation.room = some after ∧ mls.hasPendingCommit after = true ∧
        added.identifier = some user.bytes.toList ∧
        ∀ identities next, mls.applyPendingCommit identities after = (.ok (), next) →
          ∀ member, member ∈ members next ↔ member ∈ members group ∨ member = added := by
  have trusted := Reachable.trusted laws rosters mine reachable
  refine ⟨fun user row held => ⟨fun moves d ran => ?_, ?_⟩, trusted.vetted.groups, ?_⟩
  · exact contacts_run laws rosters mine trusted held ran
  · obtain ⟨card, named, shape, vouched⟩ := trusted.carded user row held
    obtain ⟨signed, source⟩ := Vouched.signed vouched
    exact ⟨card, named, shape, signed, source⟩
  · intro move d id operation taken commit sent new
    exact commit_adds_target laws rosters trusted taken commit sent new

theorem members_pinned_joined :
    (joined.store.mlsGroups (sampleRoom 8)).map (fun group => (members group).length) = some 2 ∧
    ∀ room group, joined.store.mlsGroups room = some group →
      ∀ member ∈ members group, Pinned joined.store member := by
  refine ⟨by decide +kernel, fun room group held => ?_⟩
  exact ((members_pinned pendingLaws_cleartext rosterLaws_cleartext rfl reachable_joined).2.1
    room group held).1

end Trust

end Grotto.Client.Pins
