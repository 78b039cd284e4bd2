/- GID: Grotto/Relay/Hub
   digest: The live connections of the relay and the queues their notifications wait in. -/

import Grotto.Protocol.Records

set_option autoImplicit false

namespace Grotto.Relay.Hub

open Protocol.Records

def outboundChannelCapacity : Nat := 64

/-- The channel from the hub to a session; it is closed once the session has dropped its end. -/
structure Channel where
  queue : List RelayMessage
  closed : Bool
  deriving DecidableEq

structure Connection where
  userId : UserId
  connectionId : UInt64
  sender : Channel
  deriving DecidableEq

structure ConnectionHub where
  activeIdentities : List UserId := []
  nextConnectionId : UInt64 := 0
  connections : List Connection := []
  deriving DecidableEq

/-- What a sender does with a message; `none` when the connection is evicted for it. -/
def Channel.offer (message : RelayMessage) (sender : Channel) : Option Channel :=
  if message = .deliveryChanged ∧ 0 < sender.queue.length then some sender
  else if sender.closed = true ∨ sender.queue.length = outboundChannelCapacity then none
  else some { sender with queue := sender.queue ++ [message] }

namespace ConnectionHub

variable (hub : ConnectionHub)

/-- `active_identities.insert(user_id)`: whether the user was not active before. -/
def activate (user : UserId) : Bool × ConnectionHub :=
  if user ∈ hub.activeIdentities then (false, hub)
  else (true, { hub with activeIdentities := user :: hub.activeIdentities })

def fetchAdd : UInt64 × ConnectionHub :=
  (hub.nextConnectionId, { hub with nextConnectionId := hub.nextConnectionId + 1 })

/-- `connections.entry(user_id).or_default().insert(connection_id, sender)`. -/
def insert (user : UserId) (id : UInt64) : ConnectionHub :=
  { hub with connections := ⟨user, id, ⟨[], false⟩⟩ ::
      hub.connections.filter fun c => ¬(c.userId = user ∧ c.connectionId = id) }

def unregister (user : UserId) (id : UInt64) : ConnectionHub :=
  { hub with connections :=
      hub.connections.filter fun c => ¬(c.userId = user ∧ c.connectionId = id) }

/-- `active_identities.remove(&user_id)`. -/
def deactivate (user : UserId) : ConnectionHub :=
  { hub with activeIdentities := hub.activeIdentities.filter fun other => other ≠ user }

def notify (recipients : List UserId) (message : RelayMessage) : ConnectionHub :=
  { hub with connections := hub.connections.filterMap fun c =>
      if c.userId ∈ recipients then (c.sender.offer message).map fun sender => { c with sender }
      else some c }

def onChannel (user : UserId) (id : UInt64) (change : Channel → Channel) : ConnectionHub :=
  { hub with connections := hub.connections.map fun c =>
      if c.userId = user ∧ c.connectionId = id then { c with sender := change c.sender } else c }

/-- `hub.register(user_id)` once the user is active: a new connection with an empty channel. -/
def register (user : UserId) : UInt64 × ConnectionHub :=
  (hub.nextConnectionId, hub.fetchAdd.2.insert user hub.nextConnectionId)

def channel (user : UserId) (id : UInt64) : Option Channel :=
  (hub.connections.find? fun c => c.userId = user ∧ c.connectionId = id).map Connection.sender

def announce : ConnectionHub := hub.notify hub.activeIdentities .deliveryChanged

theorem mem_activate {user other : UserId} :
    other ∈ (hub.activate user).2.activeIdentities ↔
      other = user ∨ other ∈ hub.activeIdentities := by
  unfold activate
  split
  · rename_i active
    constructor
    · exact .inr
    · rintro (rfl | held)
      · exact active
      · exact held
  · exact List.mem_cons

theorem activate_answer {user : UserId} : (hub.activate user).1 = true ↔
    user ∉ hub.activeIdentities := by
  unfold activate
  split
  · rename_i active
    exact ⟨nofun, fun inactive => absurd active inactive⟩
  · rename_i inactive
    exact ⟨fun _ => inactive, fun _ => rfl⟩

theorem mem_deactivate {user other : UserId} :
    other ∈ (hub.deactivate user).activeIdentities ↔
      other ∈ hub.activeIdentities ∧ other ≠ user := by
  unfold deactivate
  simp

section Channels

variable {hub} {user other : UserId} {id key : UInt64} {change : Channel → Channel}

private theorem find?_map_same {connections : List Connection} {change : Connection → Connection}
    (kept : ∀ c, (change c).userId = c.userId ∧ (change c).connectionId = c.connectionId) :
    ((connections.map change).find? fun c => c.userId = user ∧ c.connectionId = id) =
      (connections.find? fun c => c.userId = user ∧ c.connectionId = id).map change := by
  rw [List.find?_map]
  refine congrArg (Option.map change) (congrArg (List.find? · connections) (funext fun c => ?_))
  rw [Function.comp, (kept c).1, (kept c).2]

theorem channel_filter {keep : Connection → Bool}
    (kept : ∀ c, c.userId = user → c.connectionId = id → keep c = true) :
    channel { hub with connections := hub.connections.filter keep } user id = hub.channel user id := by
  unfold channel
  rw [List.find?_filter]
  refine congrArg (Option.map _) (congrArg (List.find? · hub.connections) (funext fun c => ?_))
  by_cases own : c.userId = user ∧ c.connectionId = id
  · simp [own, kept c own.1 own.2]
  · simp [own]

theorem channel_unregister (apart : other ≠ user) :
    (hub.unregister other key).channel user id = hub.channel user id :=
  channel_filter fun _ own _ => decide_eq_true fun theirs => apart (theirs.1.symm.trans own)

theorem channel_register (apart : other ≠ user) :
    (hub.register other).2.channel user id = hub.channel user id := by
  have kept : (hub.unregister other hub.nextConnectionId).channel user id = hub.channel user id :=
    channel_unregister apart
  rw [← kept]
  refine congrArg (Option.map _) (List.find?_cons_of_neg ?_)
  simp [apart]

theorem channel_activate : (hub.activate other).2.channel user id = hub.channel user id := by
  unfold activate
  split
  · rfl
  · rfl

theorem channel_registered :
    (hub.register user).2.channel user (hub.register user).1 = some ⟨[], false⟩ := by
  refine (congrArg (Option.map _) (List.find?_cons_of_pos ?_)).trans rfl
  simp [register]

theorem channel_onChannel :
    (hub.onChannel user id change).channel user id = (hub.channel user id).map change := by
  unfold channel onChannel
  rw [find?_map_same fun c => by split <;> exact ⟨rfl, rfl⟩, Option.map_map, Option.map_map]
  cases found : hub.connections.find? fun c => c.userId = user ∧ c.connectionId = id with
  | none => rfl
  | some c =>
    have own : c.userId = user ∧ c.connectionId = id := by simpa using List.find?_some found
    simp [own]

theorem channel_onOther (apart : other ≠ user) :
    (hub.onChannel other key change).channel user id = hub.channel user id := by
  unfold channel onChannel
  rw [find?_map_same fun c => by split <;> exact ⟨rfl, rfl⟩, Option.map_map]
  cases found : hub.connections.find? fun c => c.userId = user ∧ c.connectionId = id with
  | none => rfl
  | some c =>
    have own : c.userId = user ∧ c.connectionId = id := by simpa using List.find?_some found
    have theirs : ¬(c.userId = other ∧ c.connectionId = key) := fun same =>
      apart (same.1.symm.trans own.1)
    simp [theirs]

theorem channel_notify {recipients : List UserId} {message : RelayMessage} {sender after : Channel}
    (listed : user ∈ recipients) (held : hub.channel user id = some sender)
    (taken : sender.offer message = some after) :
    (hub.notify recipients message).channel user id = some after := by
  unfold channel notify at *
  generalize hub.connections = connections at held ⊢
  induction connections with
  | nil => cases held
  | cons c connections ih =>
    by_cases own : c.userId = user ∧ c.connectionId = id
    · have first : c.sender = sender := by simpa [own] using held
      simp [own, listed, first, taken]
    rw [List.find?_cons_of_neg (by simpa using own)] at held
    have later := ih held
    by_cases theirs : c.userId ∈ recipients
    · cases offered : c.sender.offer message with
      | none => simpa [theirs, offered] using later
      | some sent => simpa [theirs, offered, own] using later
    · simpa [theirs, own] using later

end Channels

end ConnectionHub

end Grotto.Relay.Hub
