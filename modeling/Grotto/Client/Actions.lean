/- GID: Grotto/Client/Actions
   digest: Each action of the engine leaves the tables alone or makes one of its durable changes. -/

import Grotto.Client.Changes
import Grotto.Protocol.Sizes

set_option autoImplicit false

namespace Grotto.Client.Actions

open Format.Varint (Bytes)
open Protocol.Records Protocol.Wire Protocol.Sizes Protocol.Hex
open Base.Program Base.Program.Local
open Contacts Library Tables
open Calls Groups Effects Habits Operations
open Delivery Changes

variable {mls : Mls} {e : Engine mls} {s : Session mls}

theorem coherent_of_groups {t : Session mls} (coherent : Coherent s)
    (cached : t.groups = s.groups) (stored : t.store.mlsGroups = s.store.mlsGroups) :
    Coherent t := by
  intro room group found
  rw [cached] at found
  rw [stored]
  exact coherent room group found

variable {store next : Store mls}

section Journal

variable {id : MessageId} {request : Request}

theorem journals_groups (journals : Journals store id request next) :
    next.mlsGroups = store.mlsGroups := by
  obtain ⟨message, -, saved⟩ := journals
  rw [saveOutbox_rest saved]

theorem ends_journal : (journal id request : Service mls Unit).Ends s fun r t =>
    t.groups = s.groups ∧ Outcome s.store (fun _ => Journals s.store id request) r t.store := by
  have admitted : (onlyIf (¬request.isAcknowledge) (do
      let bytes ← encoded request
      admitNewData bytes.length) : Service mls Unit).Ends s fun _ t => Keeps s t := by
    unfold onlyIf
    split
    · exact ends_ofExcept_then (fun bytes _ => ends_admitNewData) fun _ _ => Keeps.refl s
    · exact ends_pure (Keeps.refl s)
  refine Ends.bind admitted (fun _ t keeps => ?_) fun _ t keeps => ⟨keeps.groups, keeps.store⟩
  refine ends_ofExcept_then (fun message mapped => ?_) fun _ _ => ⟨keeps.groups, keeps.store⟩
  refine ends_execute.mono fun r u reached => ⟨reached.1.trans keeps.groups, ?_⟩
  cases r with
  | ok _ =>
    refine ⟨message, mapError_ok mapped, ?_⟩
    rw [← keeps.store]
    exact reached.2
  | error _ => exact reached.2.trans keeps.store

theorem yields_journal : (journal id request : Service mls Unit).Yields s fun _ t =>
    t.groups = s.groups ∧ Journals s.store id request t.store :=
  ends_journal.yields

end Journal

section Commands

theorem ends_identity : (identity : Service mls Unit).Ends s fun _ t => Keeps s t := by
  refine (ends_transaction (fun _ store => store = s.store)
    (fun t => ends_call.mono fun _ u keeps => keeps.groups)
    fun t keeps => ends_call.yields.mono fun _ u called => called.store.trans keeps.store).mono
    fun r t reached => ⟨?_, reached.1⟩
  cases r with
  | ok _ => exact reached.2
  | error _ => exact reached.2

theorem ends_requireContact {user : UserId} : (requireContact e user).Ends s fun r t => Keeps s t ∧
    ∀ card, r = .ok card → ∃ row, s.store.verifiedContacts user = some row ∧
      ContactCard.parse e.crypto (hexText row.card) = .ok card := by
  refine Ends.bind ends_query (fun found t reached => ?_)
    fun _ t reached => ⟨reached.1, fun _ same => by cases same⟩
  obtain ⟨keeps, value⟩ := reached
  have looked := value found rfl
  refine ends_require_then (fun row present => ?_) fun _ => ⟨keeps, fun _ same => by cases same⟩
  refine ends_ofExcept ⟨keeps, fun card read => ⟨row, ?_, mapError_ok read⟩⟩
  rw [← looked]
  exact present

/-- Importing a card pins a user that had no pin; afterwards the pin is this card. -/
theorem ends_importCard {card : ContactCard} {independent : List Char} :
    (importCard e card independent).Ends s fun r t => t.groups = s.groups ∧
      (t.store = s.store ∨
        parseFingerprintHex (card.fingerprint e.crypto) = parseFingerprintHex independent ∧
        (∃ read, ContactCard.parse e.crypto card.encode = .ok read) ∧
        s.store.verifiedContacts card.user = none ∧
        t.store = s.store.insertContact card.user ⟨card.mlsKey.toList, card.bytes⟩) ∧
      ∀ a, r = .ok a → ∃ row, t.store.verifiedContacts card.user = some row ∧
        row.card = card.bytes := by
  have fingerprint : (orFail (.store (.invalidData "invalid fingerprint"))
      (Local.ofExcept ((parseFingerprintHex independent).mapError fun _ => Error.decode)) :
      Service mls _).Ends s fun r t => t = s ∧
        ∀ given, r = .ok given → parseFingerprintHex independent = .ok given := by
    refine Ends.orFail (ends_ofExcept ?_)
    split
    · rename_i given mapped
      refine ⟨rfl, fun other same => ?_⟩
      rw [← Except.ok.inj same]
      exact mapError_ok mapped
    · exact ⟨rfl, fun _ same => by cases same⟩
  refine Ends.bind fingerprint (fun given t reached => ?_)
    fun _ t reached => by rw [reached.1]; exact ⟨rfl, .inl rfl, fun _ same => by cases same⟩
  obtain ⟨rfl, value⟩ := reached
  have supplied := value given rfl
  split
  · exact ends_fail ⟨rfl, .inl rfl, fun _ same => by cases same⟩
  rename_i matching
  refine ends_ofExcept_then (fun read parsed => ?_)
    fun _ _ => ⟨rfl, .inl rfl, fun _ same => by cases same⟩
  refine Ends.bind ends_query (fun found u reached => ?_)
    fun _ u reached => ⟨reached.1.groups, .inl reached.1.store, fun _ same => by cases same⟩
  obtain ⟨keeps, value⟩ := reached
  have looked := value found rfl
  cases found with
  | some old =>
    simp only
    split
    · exact ends_fail ⟨keeps.groups, .inl keeps.store, fun _ same => by cases same⟩
    · rename_i same
      refine ends_pure ⟨keeps.groups, .inl keeps.store, fun _ _ => ⟨old, ?_, not_not.mp same⟩⟩
      rw [keeps.store, looked]
  | none =>
    refine Ends.bind ends_admitNewData (fun _ v admitted => ?_) fun _ v admitted =>
      ⟨(keeps.trans admitted).groups, .inl (keeps.trans admitted).store,
        fun _ same => by cases same⟩
    have whole := keeps.trans admitted
    refine ends_update.mono fun r w updated => ⟨updated.1.trans whole.groups, ?_⟩
    cases r with
    | ok _ =>
      have store : w.store = t.store.insertContact card.user ⟨card.mlsKey.toList, card.bytes⟩ := by
        rw [← whole.store]
        exact updated.2
      refine ⟨.inr ⟨?_, ⟨read, mapError_ok parsed⟩, looked.symm, store⟩, fun _ _ => ?_⟩
      · rw [not_not.mp matching, supplied]
      refine ⟨⟨card.mlsKey.toList, card.bytes⟩, ?_, rfl⟩
      rw [store]
      unfold Store.insertContact
      rw [← looked]
      exact Function.update_self card.user _ t.store.verifiedContacts
    | error _ => exact ⟨.inl (updated.2.trans whole.store), fun _ same => by cases same⟩

end Commands

variable {room : RoomId}

section Completion

variable {id : MessageId} {request : Request}

theorem ends_receive {event : Event} (recorded : Recorded s.store) :
    (receive event : Service mls Unit).Ends s fun r t => t.groups = s.groups ∧
      Outcome s.store (fun _ store => store = s.store ∧ Holds s.store event ∨
        Stores s.store event store) r t.store := by
  unfold receive
  simp only
  split
  · exact ends_fail ⟨rfl, rfl⟩
  rename_i bound
  refine ends_ofExcept_then (fun bytes mapped => ?_) fun _ _ => ⟨rfl, rfl⟩
  have encodes := mapError_ok mapped
  refine Ends.bind ends_query (fun found t reached => ?_)
    fun _ t reached => ⟨reached.1.groups, reached.1.store⟩
  obtain ⟨keeps, value⟩ := reached
  have looked := value found rfl
  cases found with
  | some existing =>
    simp only
    split
    · exact ends_fail ⟨keeps.groups, keeps.store⟩
    rename_i same
    refine ends_pure ⟨keeps.groups, .inl ⟨keeps.store, bytes, existing.state, encodes, ?_⟩⟩
    have present := List.mem_of_find?_eq_some looked.symm
    obtain ⟨other, -, read, placed⟩ := recorded existing present
    rw [not_not.mp same] at read placed
    rw [event_eq_of_encode encodes read, ← placed]
    exact present
  | none =>
    refine Ends.bind ends_admitNewData (fun _ u admitted => ?_)
      fun _ u admitted => ⟨(keeps.trans admitted).groups, (keeps.trans admitted).store⟩
    have whole := keeps.trans admitted
    refine ends_execute.mono fun r v executed => ⟨executed.1.trans whole.groups, ?_⟩
    cases r with
    | ok _ =>
      refine .inr ⟨bytes, not_lt.mp bound, encodes, ?_⟩
      rw [← whole.store]
      exact executed.2
    | error _ => exact executed.2.trans whole.store

theorem stores_groups {event : Event} (stores : Stores store event next) :
    next.mlsGroups = store.mlsGroups := by
  obtain ⟨bytes, -, -, inserted⟩ := stores
  unfold Store.insertInbox at inserted
  split at inserted
  · cases inserted
  · rw [← Except.ok.inj inserted]

theorem yields_discardAttempt (coherent : Coherent s) :
    (discardAttempt request : Service mls Unit).Yields s fun _ t =>
      Coherent t ∧ Forgets s.store request t.store := by
  unfold discardAttempt
  split
  · unfold onlyIf Forgets
    simp only
    split
    · exact yields_discardPending coherent
    · exact yields_pure ⟨coherent, rfl⟩
  · rename_i other
    refine yields_pure ⟨coherent, ?_⟩
    unfold Forgets
    split
    · rename_i operation
      exact absurd rfl (other operation)
    · rfl

theorem ends_completeConflict {operation : Append} (coherent : Coherent s) :
    (completeConflict id operation : Service mls Unit).Ends s fun r t => Coherent t ∧
      Outcome s.store (fun _ store => ∃ u, Forgets s.store (.appendRoomOperation operation) u ∧
        store = ((u.removeOutbox id).deleteHistory id).clearAttempt id) r t.store := by
  refine ends_atomic _ coherent fun t keeps => ?_
  refine Yields.bind (yields_discardAttempt (keeps.coherent coherent)) fun _ u forgot => ?_
  obtain ⟨kept, forgets⟩ := forgot
  rw [keeps.store] at forgets
  refine Yields.bind yields_update fun _ v removed => ?_
  refine Yields.bind yields_update fun _ w deleted => ?_
  refine yields_update.mono fun _ x cleared => ?_
  have store : x.store = ((u.store.removeOutbox id).deleteHistory id).clearAttempt id := by
    rw [cleared.1, deleted.1, removed.1]
  refine ⟨coherent_of_groups kept ?_ ?_, u.store, forgets, store⟩
  · rw [cleared.2, deleted.2, removed.2]
  · rw [store]
    rfl

theorem ends_completeRejection (coherent : Coherent s) :
    (completeRejection id request : Service mls Unit).Ends s fun r t => Coherent t ∧
      Outcome s.store (fun _ store => ∃ u, Forgets s.store request u ∧
        store = (u.deleteIntents id).removeOutbox id) r t.store := by
  refine ends_atomic _ coherent fun t keeps => ?_
  refine Yields.bind (yields_discardAttempt (keeps.coherent coherent)) fun _ u forgot => ?_
  obtain ⟨kept, forgets⟩ := forgot
  rw [keeps.store] at forgets
  refine Yields.bind yields_update fun _ v deleted => ?_
  refine yields_update.mono fun _ w removed => ?_
  have store : w.store = (u.store.deleteIntents id).removeOutbox id := by
    rw [removed.1, deleted.1]
  refine ⟨coherent_of_groups kept ?_ ?_, u.store, forgets, store⟩
  · rw [removed.2, deleted.2]
  · rw [store]
    rfl

theorem insertIntent_groups {row : IntentRow} (inserted : store.insertIntent row = .ok next) :
    next.mlsGroups = store.mlsGroups := by
  unfold Store.insertIntent at inserted
  split at inserted
  · cases inserted
  · rw [← Except.ok.inj inserted]

theorem upsertRoom_groups {name origin : String}
    (named : store.upsertRoom room name origin = .ok next) : next.mlsGroups = store.mlsGroups := by
  unfold Store.upsertRoom at named
  split at named
  · cases named
  · rw [← Except.ok.inj named]

theorem insertCursorOrIgnore_groups {sequence : Nat} :
    (store.insertCursorOrIgnore room sequence).mlsGroups = store.mlsGroups := by
  unfold Store.insertCursorOrIgnore
  split
  · rfl
  · rfl

theorem ends_completeCreation {name : String} (coherent : Coherent s) :
    (completeCreation e id name room).Ends s fun r t => Coherent t ∧
      Outcome s.store (fun _ store => ∃ unread u v, Founds e.client unread s.store room u ∧
        u.upsertRoom room name "created" = .ok v ∧
        store = (v.insertCursorOrIgnore room 0).removeOutbox id) r t.store := by
  refine ends_atomic _ coherent fun t keeps => ?_
  refine Yields.bind (yields_createGroup (keeps.coherent coherent)) fun _ u founded => ?_
  obtain ⟨kept, unread, founds⟩ := founded
  rw [keeps.store] at founds
  refine Yields.bind yields_execute fun _ v named => ?_
  refine Yields.bind yields_update fun _ w placed => ?_
  refine yields_update.mono fun _ x removed => ?_
  have store : x.store = (v.store.insertCursorOrIgnore room 0).removeOutbox id := by
    rw [removed.1, placed.1]
  refine ⟨coherent_of_groups kept ?_ ?_, unread, u.store, v.store, founds, named.1, store⟩
  · rw [removed.2, placed.2, named.2]
  · rw [store, ← upsertRoom_groups named.1]
    exact insertCursorOrIgnore_groups

theorem ends_completeReservation {recipient : UserId} {package : Bytes} (coherent : Coherent s) :
    (completeReservation id recipient package : Service mls Unit).Ends s fun _ t =>
      Coherent t ∧ (t.store = s.store ∨
        Completes e s.store id (.reserveKeyPackage recipient) (.keyPackage recipient package)
          t.store) := by
  have nothing : Coherent s ∧ (s.store = s.store ∨
      Completes e s.store id (.reserveKeyPackage recipient) (.keyPackage recipient package)
        s.store) := ⟨coherent, .inl rfl⟩
  refine ends_require_then (fun message read => ?_) fun _ => nothing
  refine ends_require_then (fun identity leaf => ?_) fun _ => nothing
  refine Ends.bind ends_call (fun _ t keeps => ?_)
    fun _ t keeps => ⟨keeps.coherent coherent, .inl keeps.store⟩
  refine ends_get (ends_ofExcept_then (fun actual mapped => ?_)
    fun _ _ => ⟨keeps.coherent coherent, .inl keeps.store⟩)
  have verified := mapError_ok mapped
  rw [keeps.store] at verified
  split
  · exact ends_fail ⟨keeps.coherent coherent, .inl keeps.store⟩
  rename_i same
  rw [not_not.mp same] at verified
  have installs := @ends_transaction mls Unit (installReservation id recipient package) t
    (fun _ store => (s.store.installPackage id recipient package).1 = 1 ∧
      store = (s.store.installPackage id recipient package).2.removeOutbox id)
    (fun u => ?_) fun u kept => ?_
  · refine installs.mono fun r u reached => ?_
    have groups := reached.1.trans keeps.groups
    cases r with
    | ok _ =>
      obtain ⟨one, store⟩ := reached.2
      refine ⟨coherent_of_groups coherent groups (by rw [store]; rfl), .inr ?_⟩
      rw [store]
      exact .reserve read leaf verified one
    | error _ =>
      have same : u.store = s.store := reached.2.trans keeps.store
      exact ⟨coherent_of_groups coherent groups (by rw [same]), .inl same⟩
  · refine Ends.bind ends_call (fun _ v called => ?_) fun _ v called => called.groups
    refine ends_get (ends_modify_then ?_)
    split
    · exact ends_fail called.groups
    · exact ends_update.mono fun _ w updated => updated.1.trans called.groups
  · refine Yields.bind ends_call.yields fun _ v called => ?_
    have store : v.store = s.store := (kept.trans called).store.trans keeps.store
    refine yields_get (yields_modify_then ?_)
    rw [store]
    split
    · exact yields_fail
    · rename_i one
      exact yields_update.mono fun _ w updated => ⟨not_not.mp one, updated.1⟩

theorem ends_complete {response : Response} (coherent : Coherent s) (recorded : Recorded s.store) :
    (complete e id request response).Ends s fun _ t => Coherent t ∧ (t.store = s.store ∨
      Completes e s.store id request response t.store) := by
  have differing : (differs : Service mls Unit).Ends s fun _ t => Coherent t ∧
      (t.store = s.store ∨ Completes e s.store id request response t.store) :=
    ends_fail ⟨coherent, .inl rfl⟩
  have removing : ∀ {response : Response}, Closes request response →
      (update fun store => store.removeOutbox id : Service mls Unit).Ends s fun _ t => Coherent t ∧
        (t.store = s.store ∨ Completes e s.store id request response t.store) := by
    intro response closes
    refine ends_update.mono fun r t updated => ?_
    cases r with
    | ok _ =>
      refine ⟨coherent_of_groups coherent updated.1 ?_, .inr ?_⟩
      · rw [updated.2]
        rfl
      · rw [updated.2]
        exact .close closes
    | error _ =>
      exact ⟨coherent_of_groups coherent updated.1 (by rw [updated.2]), .inl updated.2⟩
  have refusing : ∀ {reason : Rejection}, isPassing reason = false →
      (completeRejection id request : Service mls Unit).Ends s fun _ t => Coherent t ∧
        (t.store = s.store ∨ Completes e s.store id request (.rejected reason) t.store) := by
    intro reason lasting
    refine (ends_completeRejection coherent).mono fun r t reached => ⟨reached.1, ?_⟩
    cases r with
    | ok _ =>
      obtain ⟨u, forgets, store⟩ := reached.2
      rw [store]
      exact .inr (.refuse lasting forgets)
    | error _ => exact .inl reached.2
  unfold complete
  split
  · exact ends_pure ⟨coherent, .inl rfl⟩
  · exact ends_pure ⟨coherent, .inl rfl⟩
  · exact ends_pure ⟨coherent, .inl rfl⟩
  · rename_i reason overloaded quota internal
    refine refusing ?_
    cases reason with
    | overloaded => exact absurd rfl overloaded
    | quota => exact absurd rfl quota
    | internal => exact absurd rfl internal
    | _ => rfl
  · split
    · refine (ends_completeCreation coherent).mono fun r t reached => ⟨reached.1, ?_⟩
      cases r with
      | ok _ =>
        obtain ⟨_, u, v, founds, named, store⟩ := reached.2
        rw [store]
        exact .inr (.create founds named)
      | error _ => exact .inl reached.2
    · exact differing
  · split
    · split
      · rename_i all
        exact removing (.published all)
      · exact differing
    · exact differing
  · split
    · exact removing .granted
    · exact differing
  · split
    · split
      · rename_i same
        subst same
        exact ends_completeReservation coherent
      · exact differing
    · exact differing
  · split
    · split
      · rename_i own
        subst own
        refine (ends_receive recorded).mono fun r t reached => ?_
        cases r with
        | ok _ =>
          rcases reached.2 with ⟨same, -⟩ | stores
          · exact ⟨coherent_of_groups coherent reached.1 (by rw [same]), .inl same⟩
          · exact ⟨coherent_of_groups coherent reached.1 (stores_groups stores), .inr (.accept stores)⟩
        | error _ =>
          exact ⟨coherent_of_groups coherent reached.1 (by rw [reached.2]), .inl reached.2⟩
      · exact differing
    · exact differing
  · split
    · split
      · rename_i conflict
        obtain ⟨rfl, moved⟩ := conflict
        refine (ends_completeConflict coherent).mono fun r t reached => ⟨reached.1, ?_⟩
        cases r with
        | ok _ =>
          obtain ⟨u, forgets, store⟩ := reached.2
          rw [store]
          exact .inr (.conflict moved forgets)
        | error _ => exact .inl reached.2
      · exact differing
    · exact differing
  · split
    · exact removing .acknowledged
    · exact differing
  · exact differing
  · exact differing
  · exact differing

end Completion

section Attempts

variable {row : IntentRow} {id : MessageId} {parent : Nat}

theorem ends_bindU64 {n : Nat} : (bindU64 n : Service mls Nat).Ends s fun _ t => t = s := by
  unfold bindU64
  split
  · exact ends_pure rfl
  · exact ends_fail rfl

theorem ends_history {before : Option UInt64} :
    (history room before : Service mls (List HistoryRow)).Ends s fun _ t => Keeps s t := by
  have bound : ∀ t : Session mls, (bindBefore before : Service mls (Option Nat)).Ends t
      fun _ u => u = t := by
    intro t
    cases before with
    | none => exact ends_pure rfl
    | some sequence =>
      exact Local.Ends.bind ends_bindU64 (fun _ _ stays => ends_pure stays) fun _ _ stays => stays
  refine Local.Ends.bind ends_call (fun _ t called => ?_) fun _ _ called => called
  refine Local.Ends.bind (bound t) (fun _ u stays => ends_get (ends_pure ?_)) fun _ u stays => ?_
  · rw [stays]
    exact called
  · rw [stays]
    exact called

theorem yields_bindU64 {n : Nat} :
    (bindU64 n : Service mls Nat).Yields s fun m t => m = n ∧ n ≤ i64Max ∧ t = s := by
  unfold bindU64
  split
  · rename_i bound
    exact yields_pure ⟨rfl, bound, rfl⟩
  · exact yields_fail

theorem yields_attemptRequest (coherent : Coherent s) :
    (attemptRequest e row id parent).Yields s fun request t =>
      Coherent t ∧ Builds e s.store row id parent request t.store := by
  unfold attemptRequest
  split
  · rename_i recipient target package
    exact yields_pure ⟨coherent, .reservation target package⟩
  · rename_i target package held
    refine Yields.bind (yields_buildPendingAdd coherent) fun made t built => ?_
    obtain ⟨epoch, body, welcome⟩ := made
    obtain ⟨kept, adds⟩ := built
    refine Yields.bind yields_require fun recipient u named => ?_
    obtain ⟨target, rfl⟩ := named
    exact yields_pure ⟨kept, .addition target held adds⟩
  · rename_i target package
    refine Yields.bind yields_require fun plaintext t found => ?_
    obtain ⟨text, rfl⟩ := found
    refine Yields.bind (yields_encryptBound coherent) fun made u encrypted => ?_
    obtain ⟨epoch, body⟩ := made
    obtain ⟨kept, encrypts⟩ := encrypted
    refine Yields.bind yields_bindU64 fun sequence v bound => ?_
    obtain ⟨rfl, fits, rfl⟩ := bound
    refine Yields.bind yields_update fun _ w recorded => yields_pure ⟨?_, ?_⟩
    · exact coherent_of_groups kept recorded.2 (by rw [recorded.1, recordPlaintext_rest])
    · rw [recorded.1]
      exact .message target package text fits encrypts

theorem ends_attemptBody (coherent : Coherent s) :
    (attemptBody e row id parent).Ends s fun r t => Coherent t ∧
      Outcome s.store (fun _ store => ∃ request u v, Builds e s.store row id parent request u ∧
        Journals u id request v ∧ store = v.setAttempt row.id id) r t.store := by
  refine ends_atomic _ coherent fun t keeps => ?_
  refine Yields.bind (yields_attemptRequest (keeps.coherent coherent)) fun request u built => ?_
  obtain ⟨kept, builds⟩ := built
  rw [keeps.store] at builds
  refine Yields.bind yields_journal fun _ v journaled => ?_
  refine yields_update.mono fun _ w noted => ?_
  refine ⟨coherent_of_groups kept ?_ ?_, request, u.store, v.store, builds, journaled.2, noted.1⟩
  · rw [noted.2, journaled.1]
  · rw [noted.1, ← journals_groups journaled.2]
    rfl

end Attempts

variable {state : ProcessingState}

section Events

variable {event : Event}

theorem yields_finishEvent :
    (finishEvent e event state).Yields s fun _ t =>
      t.groups = s.groups ∧ Finishes e s.store event state t.store := by
  refine Yields.bind yields_update fun _ t stated => ?_
  refine Yields.bind yields_bindU64 fun sequence u bound => ?_
  obtain ⟨rfl, fits, rfl⟩ := bound
  refine Yields.bind yields_update fun _ v moved => ?_
  refine yields_journal.mono fun _ w journaled => ⟨?_, fits, ?_⟩
  · rw [journaled.1, moved.2, stated.2]
  · rw [← stated.1, ← moved.1]
    exact journaled.2

theorem finishes_groups (finishes : Finishes e store event state next) :
    next.mlsGroups = store.mlsGroups :=
  (journals_groups finishes.2).trans rfl

theorem ends_rejectEvent : (transaction (finishEvent e event .rejected)).Ends s fun r t =>
    t.groups = s.groups ∧
      Outcome s.store (fun _ => Finishes e s.store event .rejected) r t.store := by
  refine ends_transaction _ (fun t => ?_) fun t keeps => ?_
  · refine Ends.bind ends_update (fun _ u stated => ?_) fun _ u stated => stated.1
    refine Ends.bind ends_bindU64 (fun _ v same => ?_) fun _ v same => by rw [same]; exact stated.1
    subst same
    refine Ends.bind ends_update (fun _ w moved => ?_) fun _ w moved => moved.1.trans stated.1
    exact ends_journal.mono fun _ x journaled => (journaled.1.trans moved.1).trans stated.1
  · refine yields_finishEvent.mono fun _ u finished => ?_
    rw [← keeps.store]
    exact finished.2

theorem yields_applyOwn (coherent : Coherent s) (mine : event.sender = e.user) :
    (applyOwn event (s.store.findOutbox event.id) : Service mls Unit).Yields s fun _ t =>
      Coherent t ∧ Applies e s.store event t.store := by
  refine Yields.bind yields_require fun entry t found => ?_
  obtain ⟨looked, rfl⟩ := found
  refine Yields.bind yields_decoded fun message u read => ?_
  obtain ⟨decodes, rfl⟩ := read
  split
  · rename_i requestId operation
    split
    · exact yields_fail
    rename_i exact'
    obtain ⟨rfl, rfl⟩ : requestId = event.id ∧ operation = event.operation := by
      constructor
      · exact not_not.mp fun apart => exact' (.inl apart)
      · exact not_not.mp fun apart => exact' (.inr apart)
    have attempt : Entry u.store event.id (.appendRoomOperation event.operation) :=
      ⟨entry, List.mem_of_find?_eq_some looked,
        of_decide_eq_true (List.find?_some looked :), decodes⟩
    have merging : (onlyIf (event.operation.contentType = .commit)
        (applyAcceptedCommit event.operation.room) : Service mls Unit).Yields u fun _ v =>
        Coherent v ∧ if event.operation.contentType = .commit
          then Merges u.store event.operation.room v.store else v.store = u.store := by
      unfold onlyIf
      split
      · exact yields_applyAcceptedCommit coherent
      · exact yields_pure ⟨coherent, rfl⟩
    refine Yields.bind merging fun _ v merged => ?_
    obtain ⟨kept, merges⟩ := merged
    refine Yields.bind yields_update fun _ w removed => ?_
    refine Yields.bind yields_update fun _ x deleted => ?_
    refine Yields.bind yields_bindU64 fun sequence y bound => ?_
    obtain ⟨rfl, -, rfl⟩ := bound
    refine yields_update.mono fun _ z placed => ?_
    have store : z.store = ((v.store.removeOutbox event.id).deleteIntents event.id).setHistorySequence
        event.id (event.operation.parent.toNat + 1) := by
      rw [placed.1, deleted.1, removed.1]
    refine ⟨coherent_of_groups kept ?_ ?_, ?_⟩
    · rw [placed.2, deleted.2, removed.2]
    · rw [store]
      rfl
    · rw [store]
      exact .own mine attempt merges
  · exact yields_fail

theorem plain_applyOwn {own : Option OutboxRow} : Plain (applyOwn event own : Service mls Unit) :=
  plain_of_minds (minds_applyOwn fun _ _ _ => trivial)

theorem plain_finishEvent : Plain (finishEvent e event state) :=
  plain_of_minds (minds_finishEvent fun _ _ _ => trivial)

theorem ends_applyPeer (coherent : Coherent s) (other : event.sender ≠ e.user) :
    (applyPeer event : Service mls Unit).Ends s fun r t =>
      (∀ a, r = .ok a → Coherent t ∧ Applies e s.store event t.store) ∧
      ∀ fault, r = .error (.processing fault) → fault = .rejected → Refuses s.store event := by
  refine Ends.bind (ends_processBound coherent) (fun processed t reached => ?_)
    fun error t reached => ⟨fun _ same => (by cases same), ?_⟩
  · obtain ⟨kept, processes⟩ := reached.1 processed rfl
    have finished : ∀ {m : Service mls Unit}, Plain m →
        (m.Yields t fun _ u => Coherent u ∧ Applies e s.store event u.store) →
        m.Ends t fun r u => (∀ a, r = .ok a → Coherent u ∧ Applies e s.store event u.store) ∧
          ∀ fault, r = .error (.processing fault) → fault = .rejected → Refuses s.store event :=
      fun plain yields => (yields.ends.and (plain t)).mono fun r u both =>
        ⟨both.1, fun fault failed => absurd failed (both.2 fault)⟩
    cases processed with
    | application plaintext author =>
      have named : author = event.sender.bytes.toList := by
        obtain ⟨_, _, _, _, _, _, outcome, _, _, _, _, _, _, _, _, _, _, _, same, _⟩ := processes
        cases outcome with
        | application _ _ => exact (Processed.application.inj same).2
        | commit _ => cases same
      subst named
      simp only
      split
      · refine finished (plain_of_minds (minds_bindU64.bind fun _ => minds_update fun _ => trivial)) ?_
        refine Yields.bind yields_bindU64 fun sequence u bound => ?_
        obtain ⟨rfl, -, rfl⟩ := bound
        refine yields_update.mono fun _ v recorded => ⟨?_, ?_⟩
        · exact coherent_of_groups kept recorded.2
            (by rw [recorded.1, recordPlaintext_rest])
        · rw [recorded.1]
          exact .message other processes
      · exact finished (plain_of_minds (minds_fail fun _ same => by cases same)) yields_fail
    | commit epoch =>
      exact finished (plain_of_minds (minds_pure ())) (yields_pure ⟨kept, .commit other processes⟩)
  · intro fault same rejected
    obtain rfl := Except.error.inj same
    rw [rejected] at reached
    exact reached.2 rfl

theorem ends_effect (coherent : Coherent s) :
    (effect e event (s.store.findOutbox event.id)).Ends s fun r t =>
      (∀ a, r = .ok a → Coherent t ∧ Applies e s.store event t.store) ∧
      ∀ fault, r = .error (.processing fault) →
        event.sender ≠ e.user ∧ (fault = .rejected → Refuses s.store event) := by
  unfold effect
  split
  · rename_i mine
    refine ((yields_applyOwn coherent mine).ends.and (plain_applyOwn s)).mono fun r t both => ?_
    exact ⟨both.1, fun fault failed => absurd failed (both.2 fault)⟩
  · rename_i other
    refine (ends_applyPeer coherent other).mono fun r t both => ⟨both.1, fun fault failed => ?_⟩
    exact ⟨other, both.2 fault failed⟩

theorem ends_settleEvent (coherent : Coherent s) :
    (settleEvent e event (s.store.findOutbox event.id)).Ends s fun r t => Coherent t ∧
      Outcome s.store (fun _ store => ∃ middle, Applies e s.store event middle ∧
        Finishes e middle event .applied store) r t.store ∧
      ∀ fault, r = .error (.processing fault) →
        event.sender ≠ e.user ∧ (fault = .rejected → Refuses s.store event) := by
  have settles : (settleEvent e event (s.store.findOutbox event.id)).Ends s fun r t => Coherent t ∧
      Outcome s.store (fun _ store => ∃ middle, Applies e s.store event middle ∧
        Finishes e middle event .applied store) r t.store := by
    refine ends_atomic _ coherent fun t keeps => ?_
    have effected := (ends_effect (keeps.coherent coherent) :
      (effect e event (t.store.findOutbox event.id)).Ends t _).yields
    rw [keeps.store] at effected
    refine Yields.bind effected fun _ u done => ?_
    obtain ⟨kept, applies⟩ := done.1 () rfl
    refine yields_finishEvent.mono fun _ v finished => ⟨?_, u.store, applies, finished.2⟩
    exact coherent_of_groups kept finished.1 (finishes_groups finished.2)
  have faults : (settleEvent e event (s.store.findOutbox event.id)).Ends s fun r _ =>
      ∀ fault, r = .error (.processing fault) →
        event.sender ≠ e.user ∧ (fault = .rejected → Refuses s.store event) := by
    refine ends_atomic_fault fun t keeps => ?_
    have effected := (ends_effect (keeps.coherent coherent) :
      (effect e event (t.store.findOutbox event.id)).Ends t _)
    rw [keeps.store] at effected
    refine Ends.bind effected (fun _ u _ => ?_) fun error u reached fault same =>
      reached.2 fault (congrArg Except.error (Except.error.inj same))
    exact (plain_finishEvent u).mono fun r _ never fault failed => absurd failed (never fault)
  exact (settles.and faults).mono fun r t both => ⟨both.1.1, both.1.2, both.2⟩

theorem ends_applyEvent (coherent : Coherent s) :
    (applyEvent e event).Ends s fun _ t => Coherent t ∧ (t.store = s.store ∨
      cursorOf s.store event.operation.room = event.operation.parent.toNat ∧
        Settles e s.store event t.store) := by
  refine Ends.bind ends_query (fun current t reached => ?_)
    fun _ t reached => ⟨reached.1.coherent coherent, .inl reached.1.store⟩
  obtain ⟨read, value⟩ := reached
  have placed := value current rfl
  split
  · exact ends_fail ⟨read.coherent coherent, .inl read.store⟩
  rename_i next
  rw [not_not.mp next] at placed
  refine Ends.bind ends_query (fun own u reached => ?_)
    fun _ u reached => ⟨(read.trans reached.1).coherent coherent, .inl (read.trans reached.1).store⟩
  obtain ⟨looked, value⟩ := reached
  have keeps := read.trans looked
  have found := value own rfl
  rw [← looked.store] at found
  subst found
  have kept := keeps.coherent coherent
  refine ends_attempt (ends_settleEvent kept) fun r v settled => ?_
  obtain ⟨coherent', outcome, faults⟩ := settled
  rw [keeps.store] at outcome faults
  cases r with
  | ok _ =>
    have notified : (onlyIf (event.sender = e.user ∧ event.operation.contentType = .application)
        call : Service mls Unit).Ends v fun _ w => Keeps v w := by
      unfold onlyIf
      split
      · exact ends_call
      · exact ends_pure (Keeps.refl v)
    obtain ⟨middle, applies, finishes⟩ := outcome
    have settles : Settles e s.store event v.store := .apply applies finishes
    refine Ends.bind notified (fun _ w same => ends_pure ?_) fun _ w same => ?_
    · exact ⟨same.coherent coherent', .inr ⟨placed.symm, by rw [same.store]; exact settles⟩⟩
    · exact ⟨same.coherent coherent', .inr ⟨placed.symm, by rw [same.store]; exact settles⟩⟩
  | error failure =>
    have unchanged : v.store = s.store := outcome
    split
    · rename_i blocked
      cases blocked
    · rename_i blocked
      obtain rfl := Except.error.inj blocked
      have other := (faults .blocked rfl).1
      refine Ends.bind ends_update (fun _ w marked => ends_pure ⟨?_, .inr ⟨placed.symm, ?_⟩⟩)
        fun _ w failed => ⟨?_, .inl (failed.2.trans unchanged)⟩
      · exact coherent_of_groups coherent' marked.1 (by rw [marked.2]; rfl)
      · rw [marked.2, unchanged]
        exact .block other
      · exact coherent_of_groups coherent' failed.1 (by rw [failed.2])
    · rename_i rejected
      obtain rfl := Except.error.inj rejected
      obtain ⟨other, refused⟩ := faults .rejected rfl
      refine Ends.bind ends_rejectEvent (fun _ w done => ends_pure ?_) fun _ w failed => ?_
      · have finishes : Finishes e v.store event .rejected w.store := done.2
        refine ⟨coherent_of_groups coherent' done.1 (finishes_groups finishes),
          .inr ⟨placed.symm, ?_⟩⟩
        rw [unchanged] at finishes
        exact .reject other (refused rfl) finishes
      · have same : w.store = v.store := failed.2
        exact ⟨coherent_of_groups coherent' failed.1 (by rw [same]), .inl (same.trans unchanged)⟩
    · exact ends_fail ⟨coherent', .inl unchanged⟩

end Events

section Welcomes

variable {row : WelcomeInboxRow}

private theorem foldl_least (rows : List WelcomeInboxRow) (best : Option WelcomeInboxRow)
    (least : rows.foldl (fun best row =>
      match best with
      | none => some row
      | some b => if row.cursor < b.cursor then some row else some b) best = some row) :
    row ∈ rows ∨ best = some row := by
  induction rows generalizing best with
  | nil => exact .inr least
  | cons first rest ih =>
    rcases ih _ least with later | chosen
    · exact .inl (List.mem_cons_of_mem first later)
    cases best with
    | none => exact .inl (by rw [← Option.some.inj chosen]; exact List.mem_cons_self)
    | some b =>
      simp only at chosen
      split at chosen
      · exact .inl (by rw [← Option.some.inj chosen]; exact List.mem_cons_self)
      · exact .inr chosen

theorem nextWelcome_some {after : Nat} (next : store.nextWelcome after = some row) :
    row ∈ store.welcomeInbox ∧ after < row.cursor ∧ row.state.isSettled = false := by
  rcases foldl_least _ none next with member | absent
  · obtain ⟨present, kept⟩ := List.mem_filter.mp member
    simp only [Bool.and_eq_true, Bool.not_eq_true', decide_eq_true_eq] at kept
    exact ⟨present, kept⟩
  · cases absent

variable {welcome : WelcomeDelivery}

theorem ends_verifyWelcome : (verifyWelcome e welcome).Ends s fun r t =>
    Keeps s t ∧ ∀ a, r = .ok a → Verified e s.store welcome := by
  unfold verifyWelcome
  split
  · exact ends_fail ⟨Keeps.refl s, fun _ same => by cases same⟩
  rename_i boundary
  refine Ends.bind ends_requireContact (fun card t reached => ?_)
    fun _ t reached => ⟨reached.1, fun _ same => by cases same⟩
  obtain ⟨keeps, found⟩ := reached
  obtain ⟨row, pinned, parsed⟩ := found card rfl
  split
  · rename_i signed
    refine ends_pure ⟨keeps, fun _ _ => ⟨fun zero => boundary (.inl zero), ?_, ?_⟩⟩
    · exact not_lt.mp fun above => boundary (.inr above)
    · exact ⟨row, card, pinned, parsed, signed⟩
  · exact ends_fail ⟨keeps, fun _ same => by cases same⟩

theorem insertCursor_groups {sequence : Nat}
    (placed : store.insertCursor room sequence = .ok next) : next.mlsGroups = store.mlsGroups := by
  unfold Store.insertCursor at placed
  split at placed
  · cases placed
  · rw [← Except.ok.inj placed]

theorem ends_joinWelcome (coherent : Coherent s)
    (read : decodeMessage WelcomeDelivery row.record = .ok welcome)
    (verified : Verified e s.store welcome) :
    (joinWelcome e row.cursor welcome).Ends s fun r t => Coherent t ∧
      Outcome s.store (fun _ store => ∃ group, JoinsWelcome e s.store row welcome group store)
        r t.store := by
  refine ends_atomic _ coherent fun t keeps => ?_
  refine Yields.bind (ends_hasGroup (keeps.coherent coherent)).yields fun present u looked => ?_
  split
  · exact yields_fail
  refine Yields.bind (yields_join looked.2.1) fun _ v joined => ?_
  obtain ⟨kept, unread, joins⟩ := joined
  rw [looked.1, keeps.store] at joins
  refine Yields.bind (yields_containsUser kept) fun contained w asked => ?_
  obtain ⟨same, kept', group, held, member⟩ := asked
  split
  · exact yields_fail
  rename_i contains
  refine Yields.bind yields_execute fun _ x placed => ?_
  refine Yields.bind yields_execute fun _ y named => ?_
  refine Yields.bind yields_update fun _ z applied => ?_
  refine yields_journal.mono fun _ t journaled => ⟨?_, group, read, verified, ?_, ?_⟩
  · refine coherent_of_groups kept' ?_ ?_
    · rw [journaled.1, applied.2, named.2, placed.2]
    · rw [journals_groups journaled.2, applied.1, ← insertCursor_groups placed.1,
        ← upsertRoom_groups named.1]
      rfl
  · refine ⟨unread, v.store, x.store, y.store, joins, held, ?_, named.1, ?_⟩
    · rw [← same]
      exact placed.1
    · rw [← applied.1]
      exact journaled.2
  · have found := not_not.mp contains
    rw [member] at found
    obtain ⟨identity, listed, names⟩ := List.any_eq_true.mp found
    exact ⟨identity, listed, of_decide_eq_true names⟩

theorem ends_processWelcome {after : Nat} (coherent : Coherent s) :
    (processWelcome e after).Ends s fun _ t => Coherent t ∧ (t.store = s.store ∨
      ∃ row ∈ s.store.welcomeInbox, row.state.isSettled = false ∧
        (t.store = s.store.setWelcomeState row.cursor .blocked ∨
          ∃ welcome group, JoinsWelcome e s.store row welcome group t.store)) := by
  refine Ends.bind ends_query (fun found t reached => ?_)
    fun _ t reached => ⟨reached.1.coherent coherent, .inl reached.1.store⟩
  obtain ⟨keeps, value⟩ := reached
  have looked := value found rfl
  cases found with
  | none => exact ends_pure ⟨keeps.coherent coherent, .inl keeps.store⟩
  | some row =>
    obtain ⟨present, -, unsettled⟩ := nextWelcome_some looked.symm
    have blocks : ∀ u : Session mls, Coherent u → u.store = s.store →
        (do
          update fun store => store.setWelcomeState row.cursor .blocked
          pure (some row.cursor) : Service mls (Option Nat)).Ends u fun _ t => Coherent t ∧
          (t.store = s.store ∨ ∃ row ∈ s.store.welcomeInbox, row.state.isSettled = false ∧
            (t.store = s.store.setWelcomeState row.cursor .blocked ∨
              ∃ welcome group, JoinsWelcome e s.store row welcome group t.store)) := by
      intro u kept same
      refine Ends.bind ends_update (fun _ v marked => ends_pure ⟨?_, .inr ?_⟩) fun _ v failed => ?_
      · exact coherent_of_groups kept marked.1 (by rw [marked.2]; rfl)
      · refine ⟨row, present, unsettled, .inl ?_⟩
        rw [marked.2, same]
      · exact ⟨coherent_of_groups kept failed.1 (by rw [failed.2]), .inl (failed.2.trans same)⟩
    refine ends_ofExcept_then (fun welcome mapped => ?_)
      fun _ _ => ⟨keeps.coherent coherent, .inl keeps.store⟩
    have read := mapError_ok mapped
    refine ends_attempt ends_verifyWelcome fun r u checked => ?_
    have whole := keeps.trans checked.1
    cases r with
    | error _ => exact blocks u (whole.coherent coherent) whole.store
    | ok _ =>
      have verified := checked.2 () rfl
      rw [keeps.store] at verified
      rw [← whole.store] at verified
      refine ends_attempt (ends_joinWelcome (whole.coherent coherent) read verified)
        fun r v joined => ?_
      obtain ⟨kept, outcome⟩ := joined
      rw [whole.store] at outcome
      cases r with
      | error _ => exact blocks v kept outcome
      | ok _ =>
        obtain ⟨group, joins⟩ := outcome
        exact ends_pure ⟨kept, .inr ⟨row, present, unsettled, .inr ⟨welcome, group, joins⟩⟩⟩

theorem yields_insertWelcomes (welcomes : List WelcomeDelivery) (last : Nat) :
    (insertWelcomes e welcomes last).Yields s fun final t => ∃ rows,
      WelcomeRows e last welcomes rows final ∧
      t.store = { s.store with welcomeInbox := s.store.welcomeInbox ++ rows } := by
  induction welcomes generalizing s last with
  | nil =>
    refine yields_pure ⟨[], .nil, ?_⟩
    rw [List.append_nil]
  | cons welcome welcomes ih =>
    unfold insertWelcomes
    split
    · exact yields_fail
    rename_i checked
    refine Yields.bind yields_encoded fun record t encodes => ?_
    obtain ⟨encodes, rfl⟩ := encodes
    refine Yields.bind yields_bindU64 fun cursor u bound => ?_
    obtain ⟨rfl, fits, rfl⟩ := bound
    refine Yields.bind yields_execute fun _ v inserted => ?_
    refine (ih (s := v) _).mono fun final w reached => ?_
    obtain ⟨rows, listed, store⟩ := reached
    have above : last < welcome.cursor.toNat := not_le.mp fun below => checked (.inl below)
    have mine : welcome.attachment.recipient = e.user :=
      not_not.mp fun apart => checked (.inr apart)
    refine ⟨_, .cons above mine encodes fits listed, ?_⟩
    have appended := inserted.1
    unfold Store.insertWelcome at appended
    split at appended
    · cases appended
    · rw [store, ← Except.ok.inj appended, List.append_assoc]
      rfl

theorem groups_insertWelcomes (welcomes : List WelcomeDelivery) (last : Nat) :
    (insertWelcomes e welcomes last).Ends s fun _ t => t.groups = s.groups := by
  induction welcomes generalizing s last with
  | nil => exact ends_pure rfl
  | cons welcome welcomes ih =>
    unfold insertWelcomes
    split
    · exact ends_fail rfl
    refine ends_ofExcept_then (fun record _ => ?_) fun _ _ => rfl
    refine Ends.bind ends_bindU64 (fun cursor t same => ?_) fun _ t same => by rw [same]
    subst same
    refine Ends.bind ends_execute (fun _ u inserted => ?_) fun _ u failed => failed.1
    exact (ih (s := u) _).mono fun _ v same => same.trans inserted.1

theorem ends_saveWelcomes {welcomes : List WelcomeDelivery} (coherent : Coherent s) :
    (saveWelcomes e s.store.welcomeCursor welcomes).Ends s fun _ t => Coherent t ∧
      (t.store = s.store ∨ ∃ rows last, WelcomeRows e s.store.welcomeCursor welcomes rows last ∧
        t.store = { s.store with
          welcomeInbox := s.store.welcomeInbox ++ rows, welcomeCursor := last }) := by
  refine Ends.bind ends_admitNewData (fun _ t keeps => ?_)
    fun _ t keeps => ⟨keeps.coherent coherent, .inl keeps.store⟩
  have saved : (transaction do
      let last ← insertWelcomes e welcomes s.store.welcomeCursor
      update fun store => { store with welcomeCursor := last } : Service mls Unit).Ends t
      fun r u => u.groups = t.groups ∧ Outcome t.store (fun _ store => ∃ rows last,
        WelcomeRows e s.store.welcomeCursor welcomes rows last ∧
        store = { s.store with
          welcomeInbox := s.store.welcomeInbox ++ rows, welcomeCursor := last }) r u.store := by
    refine ends_transaction _ (fun u => ?_) fun u same => ?_
    · refine Ends.bind (groups_insertWelcomes _ _) (fun last v inserted => ?_) fun _ v failed => failed
      exact ends_update.mono fun _ w moved => moved.1.trans inserted
    · refine Yields.bind (yields_insertWelcomes _ _) fun last v inserted => ?_
      obtain ⟨rows, listed, store⟩ := inserted
      refine yields_update.mono fun _ w moved => ⟨rows, last, listed, ?_⟩
      rw [moved.1, store, same.store, keeps.store]
  refine saved.mono fun r u reached => ?_
  have groups := reached.1.trans keeps.groups
  cases r with
  | ok _ =>
    obtain ⟨rows, last, listed, store⟩ := reached.2
    exact ⟨coherent_of_groups coherent groups (by rw [store]), .inr ⟨rows, last, listed, store⟩⟩
  | error _ =>
    have same : u.store = s.store := reached.2.trans keeps.store
    exact ⟨coherent_of_groups coherent groups (by rw [same]), .inl same⟩

end Welcomes

end Grotto.Client.Actions
