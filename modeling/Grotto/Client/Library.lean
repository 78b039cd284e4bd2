/- GID: Grotto/Client/Library
   digest: The operations the client takes from its MLS library. -/

import Grotto.Protocol.Records

set_option autoImplicit false

namespace Grotto.Client.Library

open Format.Varint (Bytes)

/-- A signing identity; `identifier` is the basic credential's, `none` for any other kind. -/
structure SigningIdentity where
  identifier : Option Bytes
  signatureKey : Bytes
  deriving DecidableEq

inductive MlsError
  | identityProvider | groupStorage | other
  deriving DecidableEq

inductive Received
  | application (sender : Nat) (authenticatedData data : Bytes)
  | commit (committer : Nat) (authenticatedData : Bytes) (isExternal : Bool)
  | other
  deriving DecidableEq

abbrev Provider := SigningIdentity → Bool

/-- The library as the client sees it. A `Group` is the state `write_to_storage` saves and
`load_group` restores. Operations on a group return it as they leave it, also when they fail. -/
structure Mls where
  MlsClient : Type
  Group : Type
  Packages : Type
  Message : Type
  Seed : Type
  noPackages : Packages
  ofBytes : Bytes → Option Message
  toBytes : Message → Option Bytes
  epoch : Message → Option UInt64
  keyPackageIdentity : Message → Option SigningIdentity
  groupId : Group → Bytes
  currentEpoch : Group → UInt64
  roster : Group → List (Nat × SigningIdentity)
  hasPendingCommit : Group → Bool
  createGroupWithId : MlsClient → Bytes → Seed → Except MlsError Group
  encryptApplicationMessage : Group → Bytes → Bytes → Seed → Except MlsError Message × Group
  /-- `commit_builder().authenticated_data(aad).add_member(package)?.build()`. -/
  commitAdd : Provider → Group → Message → Bytes → Seed →
    Except MlsError (Message × List Message) × Group
  clearPendingCommit : Group → Group
  applyPendingCommit : Provider → Group → Except MlsError Unit × Group
  processIncomingMessage : Provider → Group → Message → Except MlsError Received × Group
  joinGroup : MlsClient → Provider → Packages → Message → Except MlsError Group
  /-- The key package a joined group was made from is deleted when the group is written. -/
  release : Group → Packages → Packages
  generateKeyPackageMessage : MlsClient → Packages → Seed → Except MlsError (Message × Packages)

variable (mls : Mls)

def toWire (message : mls.Message) : Option Bytes := mls.toBytes message

/-- `from_wire`: noncanonical or trailing bytes are refused. -/
def fromWire (bytes : Bytes) : Option mls.Message :=
  match mls.ofBytes bytes with
  | none => none
  | some message => if toWire mls message = some bytes then some message else none

end Grotto.Client.Library
