/- GID: Grotto/Client/Cleartext
   digest: A library that keeps no secrets, to run the client on. -/

import Grotto.Client.Library
import Grotto.Protocol.Wire

set_option autoImplicit false

namespace Grotto.Client.Cleartext

open Format.Varint (Bytes)
open Format.Combinators Format.Postcard
open Protocol.Records Protocol.Wire
open Library

structure Member where
  user : UserId
  key : Octets 32
  deriving DecidableEq

def Member.identity (m : Member) : SigningIdentity := ⟨some m.user.bytes.toList, m.key.toList⟩

inductive Kind
  | application | commit | welcome | keyPackage
  deriving DecidableEq

def Kind.code : Kind → UInt8
  | .application => 0
  | .commit => 1
  | .welcome => 2
  | .keyPackage => 3

/-- Every message in one form; a Welcome carries the group's identifier as its data. -/
structure Message where
  kind : Kind
  epoch : UInt64
  sender : UInt64
  aad : Bytes
  data : Bytes
  members : List Member
  deriving DecidableEq

def member : Codec Member :=
  (userId.prod (octets 32)).iso (fun m => (m.user, m.key)) (fun p => ⟨p.1, p.2⟩)
    (fun _ => rfl) (fun _ => rfl)

def kind : Codec Kind :=
  tag Codec.byte Kind.code [.application, .commit, .welcome, .keyPackage]
    (by rintro (_ | _) <;> decide)

instance : Serde Message where
  codec :=
    (kind.prod (u64.prod (u64.prod ((bytes wire.body).prod ((bytes wire.body).prod
      (seq wire.page member)))))).iso
      (fun m => (m.kind, m.epoch, m.sender, m.aad, m.data, m.members))
      (fun p => ⟨p.1, p.2.1, p.2.2.1, p.2.2.2.1, p.2.2.2.2.1, p.2.2.2.2.2⟩)
      (fun _ => rfl) (fun _ => rfl)

/-- A member's view of a group: its own place, and the member its pending commit adds. -/
structure Group where
  id : Bytes
  epoch : UInt64
  members : List Member
  place : Nat
  pending : Option Member
  deriving DecidableEq

namespace Group

/-- The group after a commit that adds `m`. -/
def add (g : Group) (m : Member) : Group :=
  { g with epoch := g.epoch + 1, members := g.members ++ [m], pending := none }

def roster (g : Group) : List (Nat × SigningIdentity) :=
  g.members.zipIdx.map fun entry => (entry.2, entry.1.identity)

def admitted (identities : Provider) (g : Group) (members : List Member) : Except MlsError Member :=
  match members with
  | [m] =>
    if g.members.any fun old => decide (old.user = m.user) then .error .other
    else if identities m.identity then .ok m
    else .error .identityProvider
  | _ => .error .other

def commitAdd (identities : Provider) (g : Group) (package : Message) (aad : Bytes) :
    Except MlsError (Message × List Message) × Group :=
  if package.kind ≠ .keyPackage then (.error .other, g)
  else
    match g.admitted identities package.members with
    | .error e => (.error e, g)
    | .ok m =>
      (.ok (⟨.commit, g.epoch, UInt64.ofNat g.place, aad, [], [m]⟩,
        [⟨.welcome, (g.add m).epoch, 0, [], g.id, (g.add m).members⟩]), { g with pending := some m })

def applyPending (g : Group) : Except MlsError Unit × Group :=
  match g.pending with
  | none => (.error .other, g)
  | some m => (.ok (), g.add m)

def process (identities : Provider) (g : Group) (message : Message) :
    Except MlsError Received × Group :=
  if message.epoch ≠ g.epoch ∨ message.sender.toNat = g.place ∨
      g.members.length ≤ message.sender.toNat then (.error .other, g)
  else
    match message.kind with
    | .application => (.ok (.application message.sender.toNat message.aad message.data), g)
    | .commit =>
      match g.admitted identities message.members with
      | .error e => (.error e, g)
      | .ok m => (.ok (.commit message.sender.toNat message.aad false), g.add m)
    | _ => (.error .other, g)

def join (client : Member) (identities : Provider) (message : Message) : Except MlsError Group :=
  if message.kind ≠ .welcome ∨ message.members.getLast? ≠ some client then .error .other
  else if message.members.all fun m => identities m.identity then
    .ok ⟨message.data, message.epoch, message.members, message.members.length - 1, none⟩
  else .error .identityProvider

end Group

def mls : Mls where
  MlsClient := Member
  Group := Group
  Packages := Unit
  Message := Message
  Seed := Unit
  noPackages := ()
  ofBytes bytes := (decodeMessage Message bytes).toOption
  toBytes message := (encodeMessage message).toOption
  epoch message :=
    match message.kind with
    | .application | .commit => some message.epoch
    | _ => none
  keyPackageIdentity message :=
    match message.kind, message.members with
    | .keyPackage, [m] => some m.identity
    | _, _ => none
  groupId g := g.id
  currentEpoch g := g.epoch
  roster g := g.roster
  hasPendingCommit g := g.pending.isSome
  createGroupWithId client id _ := .ok ⟨id, 0, [client], 0, none⟩
  encryptApplicationMessage g plaintext aad _ :=
    (.ok ⟨.application, g.epoch, UInt64.ofNat g.place, aad, plaintext, []⟩, g)
  commitAdd identities g package aad _ := g.commitAdd identities package aad
  clearPendingCommit g := { g with pending := none }
  applyPendingCommit _ g := g.applyPending
  processIncomingMessage := Group.process
  joinGroup client identities _ message := Group.join client identities message
  release _ packages := packages
  generateKeyPackageMessage client packages _ :=
    .ok (⟨.keyPackage, 0, 0, [], [], [client]⟩, packages)

end Grotto.Client.Cleartext
