/- GID: Grotto/Client/MlsStorage
   digest: The MLS storage provider on the client's connection: over every sequence of transactions and
   writes it answers as the log of the writes that stand. -/

import Grotto.Base.BigEndian
import Grotto.Base.Keyed
import Grotto.Client.Guard
import Mathlib.Data.List.Induction

set_option autoImplicit false

namespace Grotto.Client.MlsStorage

open Format.Varint (Bytes)
open Protocol.Transcripts (beBytes beBytes_injective length_beBytes)
open Base.BigEndian Base.Keyed Base.Transactions
open Contacts Guard

structure GroupState where
  id : Bytes
  data : Bytes
  deriving DecidableEq

structure EpochRecord where
  id : UInt64
  data : Bytes
  deriving DecidableEq

structure KeyPackageData where
  keyPackageBytes : Bytes
  initKey : Bytes
  leafNodeKey : Bytes
  expiration : UInt64
  deriving DecidableEq

structure PackageRow where
  package : Bytes
  initKey : Bytes
  leafKey : Bytes
  expiration : Bytes
  deriving DecidableEq

structure MlsTables where
  groups : List (Bytes × Bytes)
  epochs : List ((Bytes × Bytes) × Bytes)
  packages : List (Bytes × PackageRow)
  deriving DecidableEq

def MlsTables.empty : MlsTables := ⟨[], [], []⟩

inductive Write
  | write (state : GroupState) (inserts updates : List EpochRecord)
  | insert (id : Bytes) (pkg : KeyPackageData)
  | delete (id : Bytes)

def packageRow (pkg : KeyPackageData) : PackageRow :=
  ⟨pkg.keyPackageBytes, pkg.initKey, pkg.leafNodeKey, beBytes pkg.expiration⟩

def upsertEpochs (group : Bytes) (records : List EpochRecord) (epochs : List ((Bytes × Bytes) × Bytes)) :
    List ((Bytes × Bytes) × Bytes) :=
  records.foldl (fun epochs record => upsert (group, beBytes record.id) record.data epochs) epochs

/-- The statements of a write; `none` is a violated primary key. -/
def executeWrite : Write → MlsTables → Option MlsTables
  | .write state inserts updates, t =>
    some { t with groups := upsert state.id state.data t.groups,
                  epochs := upsertEpochs state.id (inserts ++ updates) t.epochs }
  | .insert id pkg, t =>
    match t.packages.lookup id with
    | some _ => none
    | none => some { t with packages := t.packages ++ [(id, packageRow pkg)] }
  | .delete id, t => some { t with packages := t.packages.filter fun row => decide (row.1 ≠ id) }

section Calls

variable {D : Type}

/-- The shape of `write`, `insert` and `delete`: the lock, `require_transaction`, the statements. -/
def storeWrite (statements : Write → D → Option D) (w : Write) (s : ClientStore D) :
    Option (Except StoreError Unit × ClientStore D) :=
  s.lockProvider.map fun locked =>
    match locked with
    | .error e => (.error e, s)
    | .ok () =>
      if s.connection.isAutocommit then
        (.error (.invalidData "MLS write requires an application transaction"), s)
      else
        match statements w s.connection.visible with
        | none => (.error .database, s)
        | some data => (.ok (), { s with connection := s.connection.execute fun _ => data })

def storeRead {α : Type} (query : D → Except StoreError α) (s : ClientStore D) :
    Option (Except StoreError α) :=
  s.lockProvider.map fun locked =>
    match locked with
    | .error e => .error e
    | .ok () => query s.connection.visible

/-- A call on the store: a write to the MLS tables, or a call that leaves them alone. -/
inductive Action
  | guard (c : Call Unit)
  | store (w : Write)

def act (statements : Write → D → Option D) : Action → ClientStore D →
    Option (Except StoreError Unit × ClientStore D)
  | .guard c, s => call c.elsewhere s
  | .store w, s => storeWrite statements w s

def acted (statements : Write → D → Option D) : List Action → ClientStore D →
    Option (List (Except StoreError Unit) × ClientStore D)
  | [], s => some ([], s)
  | action :: actions, s =>
    (act statements action s).bind fun first =>
      (acted statements actions first.2).map fun rest => (first.1 :: rest.1, rest.2)

def write (s : ClientStore MlsTables) (state : GroupState) (inserts updates : List EpochRecord) :
    Option (Except StoreError Unit × ClientStore MlsTables) :=
  storeWrite executeWrite (.write state inserts updates) s

def insert (s : ClientStore MlsTables) (id : Bytes) (pkg : KeyPackageData) :
    Option (Except StoreError Unit × ClientStore MlsTables) :=
  storeWrite executeWrite (.insert id pkg) s

def delete (s : ClientStore MlsTables) (id : Bytes) :
    Option (Except StoreError Unit × ClientStore MlsTables) :=
  storeWrite executeWrite (.delete id) s

def state (s : ClientStore MlsTables) (group : Bytes) : Option (Except StoreError (Option Bytes)) :=
  storeRead (fun t => .ok (t.groups.lookup group)) s

def epoch (s : ClientStore MlsTables) (group : Bytes) (epochId : UInt64) :
    Option (Except StoreError (Option Bytes)) :=
  storeRead (fun t => .ok (t.epochs.lookup (group, beBytes epochId))) s

/-- `try_into().map(u64::from_be_bytes)`. -/
def u64FromBlob (blob : Bytes) (invalid : StoreError) : Except StoreError UInt64 :=
  if blob.length = 8 then .ok (UInt64.ofNat (fromBeBytes blob)) else .error invalid

def epochBlobs (t : MlsTables) (group : Bytes) : List Bytes :=
  ((t.epochs.map Prod.fst).filter fun key => decide (key.1 = group)).map Prod.snd

def maxEpochId (s : ClientStore MlsTables) (group : Bytes) :
    Option (Except StoreError (Option UInt64)) :=
  storeRead (fun t =>
    match maxBlob (epochBlobs t group) with
    | none => .ok none
    | some blob => (u64FromBlob blob (.invalidData "invalid retained epoch")).map some) s

def get (s : ClientStore MlsTables) (id : Bytes) :
    Option (Except StoreError (Option KeyPackageData)) :=
  storeRead (fun t =>
    match t.packages.lookup id with
    | none => .ok none
    | some row => (u64FromBlob row.expiration (.invalidData "invalid package expiration")).map
        fun expiration => some ⟨row.package, row.initKey, row.leafKey, expiration⟩) s

end Calls

variable {recs : List EpochRecord} {blob : Bytes}

section Log

def Write.stateOf (group : Bytes) : Write → Option Bytes
  | .write state _ _ => if state.id = group then some state.data else none
  | _ => none

def Write.recordsOf (group : Bytes) : Write → List EpochRecord
  | .write state inserts updates => if state.id = group then inserts ++ updates else []
  | _ => []

def lastState (log : List Write) (group : Bytes) : Option Bytes :=
  (log.filterMap (Write.stateOf group)).getLast?

def records (log : List Write) (group : Bytes) : List EpochRecord := log.flatMap (Write.recordsOf group)

def lastRecord (log : List Write) (group : Bytes) (epochId : UInt64) : Option Bytes :=
  ((records log group).filter fun record => decide (record.id = epochId)).getLast?.map EpochRecord.data

/-- The package under an identifier after one more write; one that is taken is not replaced. -/
def Write.packageOf (id : Bytes) (held : Option KeyPackageData) : Write → Option KeyPackageData
  | .insert other pkg => if other = id then some (held.getD pkg) else held
  | .delete other => if other = id then none else held
  | .write .. => held

def packageAt (log : List Write) (id : Bytes) : Option KeyPackageData :=
  log.foldl (Write.packageOf id) none

/-- A write is logged unless it inserts under an identifier that is taken. -/
def logWrite (w : Write) (log : List Write) : Option (List Write) :=
  match w with
  | .insert id _ => if (packageAt log id).isSome then none else some (log ++ [w])
  | _ => some (log ++ [w])

def applyWrite (t : MlsTables) (w : Write) : MlsTables := (executeWrite w t).getD t

def replay (log : List Write) : MlsTables := log.foldl applyWrite .empty

variable {t : MlsTables} {log : List Write} {w : Write} {group id : Bytes} {epochId : UInt64}

theorem applyWrite_insert (id : Bytes) (pkg : KeyPackageData) :
    applyWrite t (.insert id pkg) = { t with packages :=
      if (t.packages.lookup id).isSome then t.packages else t.packages ++ [(id, packageRow pkg)] } := by
  unfold applyWrite
  rw [executeWrite]
  cases t.packages.lookup id <;> rfl

theorem applyWrite_groups :
    (applyWrite t w).groups.lookup group = (w.stateOf group).or (t.groups.lookup group) := by
  cases w with
  | write state inserts updates =>
    change (upsert state.id state.data t.groups).lookup group = _
    rw [lookup_upsert, Write.stateOf]
    by_cases same : state.id = group
    · rw [if_pos same, if_pos same.symm]
      rfl
    · rw [if_neg same, if_neg (Ne.symm same)]
      rfl
  | insert other pkg =>
    rw [applyWrite_insert]
    rfl
  | delete other => rfl

theorem lookup_upsertEpochs {epochs : List ((Bytes × Bytes) × Bytes)} {owner : Bytes} :
    (upsertEpochs owner recs epochs).lookup (group, beBytes epochId) =
      (((if owner = group then recs else []).filter fun r => decide (r.id = epochId)).getLast?.map
        EpochRecord.data).or (epochs.lookup (group, beBytes epochId)) := by
  unfold upsertEpochs
  induction recs generalizing epochs with
  | nil =>
    rw [List.foldl_nil, ite_self]
    rfl
  | cons r recs ih =>
    rw [List.foldl_cons, ih, lookup_upsert]
    by_cases same : owner = group
    · rw [if_pos same, if_pos same, List.filter_cons]
      by_cases here : r.id = epochId
      · rw [if_pos (by rw [same, here]), if_pos (decide_eq_true here), List.getLast?_cons]
        cases (recs.filter fun r => decide (r.id = epochId)).getLast? <;> rfl
      · rw [if_neg fun both => here (beBytes_injective (Prod.mk.inj both).2).symm,
          if_neg (by simpa using here)]
    · rw [if_neg same, if_neg same, if_neg fun both => same (Prod.mk.inj both).1.symm]

theorem applyWrite_epochs : (applyWrite t w).epochs.lookup (group, beBytes epochId) =
    (((w.recordsOf group).filter fun r => decide (r.id = epochId)).getLast?.map EpochRecord.data).or
      (t.epochs.lookup (group, beBytes epochId)) := by
  cases w with
  | write state inserts updates => exact lookup_upsertEpochs
  | insert other pkg =>
    rw [applyWrite_insert]
    rfl
  | delete other => rfl

theorem keys_upsertEpochs {epochs : List ((Bytes × Bytes) × Bytes)} {owner blob : Bytes} :
    (group, blob) ∈ (upsertEpochs owner recs epochs).map Prod.fst ↔
      (∃ r ∈ (if owner = group then recs else []), blob = beBytes r.id) ∨
        (group, blob) ∈ epochs.map Prod.fst := by
  unfold upsertEpochs
  induction recs generalizing epochs with
  | nil => simp
  | cons r recs ih =>
    rw [List.foldl_cons, ih, mem_keys_upsert]
    by_cases same : owner = group
    · rw [if_pos same, if_pos same]
      simp only [List.mem_cons, exists_eq_or_imp, Prod.mk.injEq, same, true_and]
      exact or_left_comm.trans or_assoc.symm
    · simp [same, Ne.symm same]

theorem applyWrite_keys : (group, blob) ∈ (applyWrite t w).epochs.map Prod.fst ↔
    (∃ r ∈ w.recordsOf group, blob = beBytes r.id) ∨ (group, blob) ∈ t.epochs.map Prod.fst := by
  cases w with
  | write state inserts updates => exact keys_upsertEpochs
  | insert other pkg =>
    rw [applyWrite_insert]
    simp [Write.recordsOf]
  | delete other => simp [applyWrite, executeWrite, Write.recordsOf]

theorem applyWrite_packages {held : Option KeyPackageData}
    (mirrored : t.packages.lookup id = held.map packageRow) :
    (applyWrite t w).packages.lookup id = (w.packageOf id held).map packageRow := by
  cases w with
  | write state inserts updates => exact mirrored
  | insert other pkg =>
    rw [applyWrite_insert, Write.packageOf]
    by_cases same : other = id
    · subst same
      rw [if_pos rfl, mirrored]
      cases held with
      | none =>
        have free : t.packages.lookup other = none := mirrored
        simp [List.lookup_append, free, lookup_cons_ite]
      | some pkg => exact mirrored
    · rw [if_neg same, ← mirrored]
      split
      · rfl
      · simp [List.lookup_append, lookup_cons_ite, Ne.symm same]
  | delete other =>
    change (List.filter _ _).lookup id = _
    rw [lookup_filter, mirrored, Write.packageOf]
    by_cases same : other = id
    · rw [if_pos same, if_pos same.symm]
      rfl
    · rw [if_neg same, if_neg (Ne.symm same)]

theorem replay_concat : replay (log ++ [w]) = applyWrite (replay log) w := by
  unfold replay
  rw [List.foldl_append, List.foldl_cons, List.foldl_nil]

theorem records_concat : records (log ++ [w]) group = records log group ++ w.recordsOf group := by
  unfold records
  rw [List.flatMap_append, List.flatMap_cons, List.flatMap_nil, List.append_nil]

theorem replay_groups : (replay log).groups.lookup group = lastState log group := by
  induction log using List.reverseRecOn with
  | nil => rfl
  | append_singleton log w ih =>
    rw [replay_concat, applyWrite_groups, ih, lastState, lastState, List.filterMap_append,
      List.getLast?_append]
    cases found : w.stateOf group with
    | none => rw [List.filterMap_cons_none found]; rfl
    | some data => rw [List.filterMap_cons_some found]; rfl

theorem replay_epochs :
    (replay log).epochs.lookup (group, beBytes epochId) = lastRecord log group epochId := by
  induction log using List.reverseRecOn with
  | nil => rfl
  | append_singleton log w ih =>
    rw [replay_concat, applyWrite_epochs, ih, lastRecord, lastRecord, records_concat, List.filter_append,
      List.getLast?_append, Option.map_or]

theorem replay_keys : (group, blob) ∈ (replay log).epochs.map Prod.fst ↔
    ∃ r ∈ records log group, blob = beBytes r.id := by
  induction log using List.reverseRecOn with
  | nil => simp [replay, MlsTables.empty, records]
  | append_singleton log w ih =>
    rw [replay_concat, applyWrite_keys, ih, records_concat]
    simp only [List.mem_append, or_and_right, exists_or]
    exact or_comm

theorem replay_packages : (replay log).packages.lookup id = (packageAt log id).map packageRow := by
  induction log using List.reverseRecOn with
  | nil => rfl
  | append_singleton log w ih =>
    rw [replay_concat, applyWrite_packages ih, packageAt, packageAt, List.foldl_append]
    rfl

end Log

section Refinement

variable {log : List Write} {w : Write}

theorem executeWrite_replay : executeWrite w (replay log) = (logWrite w log).map replay := by
  have next : ∀ t', executeWrite w (replay log) = some t' → replay (log ++ [w]) = t' := by
    intro t' done
    rw [replay_concat, applyWrite, done]
    rfl
  cases w with
  | write state inserts updates => exact congrArg some (next _ rfl).symm
  | delete other => exact congrArg some (next _ rfl).symm
  | insert other pkg =>
    have mirrored := @replay_packages log other
    rw [logWrite]
    cases held : packageAt log other with
    | some present =>
      rw [held] at mirrored
      rw [executeWrite, mirrored]
      rfl
    | none =>
      rw [held] at mirrored
      rw [executeWrite, mirrored] at next ⊢
      exact congrArg some (next _ rfl).symm

theorem storeWrite_replay {s : ClientStore (List Write)} : storeWrite executeWrite w (s.map replay) =
    (storeWrite logWrite w s).map fun result => (result.1, result.2.map replay) := by
  have locked : (s.map replay).lockProvider = s.lockProvider := rfl
  have mapped : (s.map replay).connection = s.connection.map replay := rfl
  unfold storeWrite
  rw [locked]
  cases s.lockProvider with
  | none => rfl
  | some answer =>
    cases answer with
    | error e => rfl
    | ok _ =>
      simp only [Option.map_some, mapped, Connection.isAutocommit_map, Connection.visible_map,
        executeWrite_replay]
      split
      · rfl
      cases logWrite w s.connection.visible with
      | none => rfl
      | some log =>
        have same := @Connection.execute_map _ s.connection _ replay (fun _ => replay log)
          (fun _ => log) fun _ => rfl
        simp only [Option.map_some]
        rw [same]
        rfl

theorem act_replay (action : Action) {s : ClientStore (List Write)} :
    act executeWrite action (s.map replay) =
      (act logWrite action s).map fun result => (result.1, result.2.map replay) := by
  cases action with
  | guard c => exact call_map replay c
  | store w => exact storeWrite_replay

theorem acted_replay (actions : List Action) {s : ClientStore (List Write)} :
    acted executeWrite actions (s.map replay) =
      (acted logWrite actions s).map fun result => (result.1, result.2.map replay) := by
  induction actions generalizing s with
  | nil => rfl
  | cons action actions ih =>
    rw [acted, acted, act_replay]
    cases act logWrite action s with
    | none => rfl
    | some first =>
      change (acted executeWrite actions (first.2.map replay)).map _ =
        ((acted logWrite actions first.2).map _).map _
      rw [ih, Option.map_map, Option.map_map]
      rfl

end Refinement

section Queries

variable {log : List Write} {group : Bytes}

theorem fromBeBytes_beBytes (n : UInt64) : fromBeBytes (beBytes n) = n.toNat := by
  have bound := n.toNat_lt
  simp only [fromBeBytes, beBytes, List.map_cons, List.map_nil, List.foldl_cons, List.foldl_nil,
    UInt8.toNat_ofNat']
  norm_num at bound ⊢
  omega

theorem u64FromBlob_beBytes (n : UInt64) (invalid : StoreError) :
    u64FromBlob (beBytes n) invalid = .ok n := by
  unfold u64FromBlob
  rw [if_pos (length_beBytes n), fromBeBytes_beBytes, UInt64.ofNat_toNat]

def Greatest (recs : List EpochRecord) : Option UInt64 → Prop
  | none => recs = []
  | some epochId => (∃ r ∈ recs, r.id = epochId) ∧ ∀ r ∈ recs, r.id ≤ epochId

theorem mem_epochBlobs :
    blob ∈ epochBlobs (replay log) group ↔ ∃ r ∈ records log group, blob = beBytes r.id := by
  rw [← replay_keys]
  unfold epochBlobs
  simp only [List.mem_map, List.mem_filter, decide_eq_true_eq]
  constructor
  · rintro ⟨⟨owner, found⟩, ⟨listed, rfl⟩, rfl⟩
    exact listed
  · intro listed
    exact ⟨(group, blob), ⟨listed, rfl⟩, rfl⟩

theorem maxBlob_records : (records log group = [] ∧ maxBlob (epochBlobs (replay log) group) = none) ∨
    ∃ epochId, maxBlob (epochBlobs (replay log) group) = some (beBytes epochId) ∧
      Greatest (records log group) (some epochId) := by
  have sized : ∀ blob ∈ epochBlobs (replay log) group, blob.length = 8 := by
    intro blob listed
    obtain ⟨r, -, rfl⟩ := mem_epochBlobs.mp listed
    rfl
  rcases maxBlob_spec sized with ⟨empty, none⟩ | ⟨blob, listed, found, above⟩
  · refine .inl ⟨List.eq_nil_iff_forall_not_mem.mpr fun r listed => ?_, none⟩
    have blob := mem_epochBlobs.mpr ⟨r, listed, rfl⟩
    rw [empty] at blob
    exact absurd blob List.not_mem_nil
  · obtain ⟨r, member, rfl⟩ := mem_epochBlobs.mp listed
    refine .inr ⟨r.id, found, ⟨r, member, rfl⟩, fun other otherMember => ?_⟩
    have less := above _ (mem_epochBlobs.mpr ⟨other, otherMember, rfl⟩)
    rw [fromBeBytes_beBytes, fromBeBytes_beBytes] at less
    exact UInt64.le_iff_toNat_le.mpr less

end Queries

section Results

variable {D : Type} {answer : Except StoreError Unit}

theorem storeRead_idle {α : Type} {query : D → Except StoreError α} {s : ClientStore D}
    (sound : s.poisoned = false) (free : s.held = none) :
    storeRead query s = some (query s.connection.visible) := by
  unfold storeRead ClientStore.lockProvider
  rw [sound, free]
  rfl

theorem storeWrite_cases {statements : Write → D → Option D} {w : Write} {s s' : ClientStore D}
    (called : storeWrite statements w s = some (answer, s')) :
    (∃ e, answer = .error e) ∧ s' = s ∨
      answer = .ok () ∧ s.connection.working.isSome = true ∧ ∃ data,
        statements w s.connection.visible = some data ∧
        s' = { s with connection := s.connection.execute fun _ => data } := by
  obtain ⟨locked, granted, result⟩ := Option.map_eq_some_iff.mp called
  cases locked with
  | error e =>
    cases result
    exact .inl ⟨⟨e, rfl⟩, rfl⟩
  | ok _ =>
    dsimp only at result
    split at result
    · cases result
      exact .inl ⟨⟨_, rfl⟩, rfl⟩
    rename_i standing
    cases ran : statements w s.connection.visible with
    | none =>
      rw [ran] at result
      cases result
      exact .inl ⟨⟨_, rfl⟩, rfl⟩
    | some data =>
      rw [ran] at result
      cases result
      refine .inr ⟨rfl, ?_, data, rfl, rfl⟩
      exact Option.isSome_iff_ne_none.mpr fun idle => standing (Option.isNone_iff_eq_none.mpr idle)

theorem visible_execute {c : Connection D} (standing : c.working.isSome = true) (data : D) :
    (c.execute fun _ => data).visible = data := by
  obtain ⟨durable, _ | working⟩ := c
  · cases standing
  · rfl

theorem storeRead_same {α : Type} {query : D → Except StoreError α} {s : ClientStore D} {c : Connection D}
    (same : query c.visible = query s.connection.visible) :
    storeRead query { s with connection := c } = storeRead query s := by
  refine Option.map_congr fun locked _ => ?_
  cases locked with
  | error e => rfl
  | ok _ => exact same

theorem keys_upsert_apart {owner group blob data : Bytes} (apart : owner ≠ group)
    (epochs : List ((Bytes × Bytes) × Bytes)) :
    (((upsert (owner, blob) data epochs).map Prod.fst).filter fun key => decide (key.1 = group)) =
      (epochs.map Prod.fst).filter fun key => decide (key.1 = group) := by
  induction epochs with
  | nil =>
    change List.filter _ [(owner, blob)] = []
    rw [List.filter_cons, if_neg (by simpa using apart), List.filter_nil]
  | cons entry epochs ih =>
    unfold upsert
    split
    · rename_i same
      rw [List.map_cons, List.map_cons, List.filter_cons, List.filter_cons, same]
    · rw [List.map_cons, List.map_cons, List.filter_cons, List.filter_cons, ih]

theorem epochBlobs_write {t : MlsTables} {group owner : Bytes} (apart : owner ≠ group)
    {groups : List (Bytes × Bytes)} :
    epochBlobs { t with groups := groups, epochs := upsertEpochs owner recs t.epochs } group =
      epochBlobs t group := by
  unfold epochBlobs upsertEpochs
  refine congrArg (List.map Prod.snd) ?_
  induction recs using List.reverseRecOn with
  | nil => rfl
  | append_singleton recs r ih =>
    rw [List.foldl_append, List.foldl_cons, List.foldl_nil, keys_upsert_apart apart, ih]

def groupView (s : ClientStore MlsTables) (group : Bytes) :
    Option (Except StoreError (Option Bytes)) × (UInt64 → Option (Except StoreError (Option Bytes))) ×
      Option (Except StoreError (Option UInt64)) :=
  (state s group, epoch s group, maxEpochId s group)

theorem groupView_write {s s' : ClientStore MlsTables} {target : GroupState}
    {inserts updates : List EpochRecord} {group : Bytes}
    (called : write s target inserts updates = some (answer, s')) (apart : group ≠ target.id) :
    groupView s' group = groupView s group := by
  rcases storeWrite_cases called with ⟨-, rfl⟩ | ⟨-, standing, tables, ran, rfl⟩
  · rfl
  have seen := visible_execute standing tables
  obtain rfl := Option.some.inj ran
  have states := @storeRead_same MlsTables _ (fun t => .ok (t.groups.lookup group)) s
    (s.connection.execute fun _ => _) (by rw [seen, lookup_upsert, if_neg apart])
  have epochs : ∀ epochId, epoch { s with connection := s.connection.execute fun _ => _ } group epochId =
      epoch s group epochId := fun epochId =>
    storeRead_same (by rw [seen, lookup_upsertEpochs, if_neg (Ne.symm apart)]; rfl)
  have greatest : maxEpochId { s with connection := s.connection.execute fun _ => _ } group =
      maxEpochId s group := storeRead_same (by rw [seen, epochBlobs_write (Ne.symm apart)])
  exact Prod.ext states (Prod.ext (funext epochs) greatest)

/-- Over every sequence of transactions and writes the storage answers as the log of the writes that
stand: the last state of a group, the last record of an epoch, the greatest epoch, the package that was
inserted; a write to one group leaves the others alone, and a write outside a transaction does nothing. -/
theorem storage_refines_log {actions : List Action} {answers : List (Except StoreError Unit)}
    {s : ClientStore MlsTables} (reached : acted executeWrite actions (opened .empty) = some (answers, s)) :
    ∃ log : ClientStore (List Write), acted logWrite actions (opened []) = some (answers, log) ∧
      s = log.map replay ∧
      (s.poisoned = false → s.held = none →
        (∀ group, state s group = some (.ok (lastState log.connection.visible group))) ∧
        (∀ group epochId,
          epoch s group epochId = some (.ok (lastRecord log.connection.visible group epochId))) ∧
        (∀ group, ∃ greatest, maxEpochId s group = some (.ok greatest) ∧
          Greatest (records log.connection.visible group) greatest) ∧
        ∀ id, get s id = some (.ok (packageAt log.connection.visible id))) ∧
      (∀ target inserts updates answer s', write s target inserts updates = some (answer, s') →
        ∀ group, group ≠ target.id → groupView s' group = groupView s group) ∧
      ∀ w answer s', s.connection.working = none → storeWrite executeWrite w s = some (answer, s') →
        (∃ e, answer = .error e) ∧ s' = s := by
  have simulated := @acted_replay actions (opened [])
  have start : (opened [] : ClientStore (List Write)).map replay = opened .empty := rfl
  rw [start, reached] at simulated
  obtain ⟨⟨answers', log⟩, ran, same⟩ := Option.map_eq_some_iff.mp simulated.symm
  obtain ⟨rfl, rfl⟩ := Prod.mk.inj same
  have visible : (log.map replay).connection.visible = replay log.connection.visible :=
    Connection.visible_map replay
  refine ⟨log, ran, rfl, fun sound free => ⟨?_, ?_, ?_, ?_⟩, ?_, ?_⟩
  · intro group
    rw [state, storeRead_idle sound free, visible, replay_groups]
  · intro group epochId
    rw [epoch, storeRead_idle sound free, visible, replay_epochs]
  · intro group
    rw [maxEpochId, storeRead_idle sound free, visible]
    rcases @maxBlob_records log.connection.visible group with ⟨empty, none⟩ | ⟨epochId, found, greatest⟩
    · rw [none]
      exact ⟨.none, rfl, empty⟩
    · rw [found]
      dsimp only
      rw [u64FromBlob_beBytes]
      exact ⟨some epochId, rfl, greatest⟩
  · intro id
    rw [get, storeRead_idle sound free, visible, replay_packages]
    cases packageAt log.connection.visible id with
    | none => rfl
    | some pkg =>
      dsimp only [Option.map_some, packageRow]
      rw [u64FromBlob_beBytes]
      rfl
  · intro target inserts updates answer s' called group apart
    exact groupView_write called apart
  · intro w answer s' closed called
    rcases storeWrite_cases called with failed | ⟨-, standing, -⟩
    · exact failed
    · rw [closed] at standing
      cases standing

/-- A transaction that writes two epochs of a group, across the boundary of a byte. -/
def retaining : List Action :=
  [.guard (.transaction 1 false), .store (.write ⟨[7], [1]⟩ [⟨256, [2]⟩] [⟨255, [3]⟩]),
    .guard (.commit 1 none none)]

def retained : ClientStore MlsTables :=
  ⟨⟨⟨[([7], [1])], [(([7], [0, 0, 0, 0, 0, 0, 1, 0]), [2]), (([7], [0, 0, 0, 0, 0, 0, 0, 255]), [3])], []⟩,
    none⟩, none, none, false, []⟩

theorem storage_refines_log_retaining :
    acted executeWrite retaining (opened .empty) = some ([.ok (), .ok (), .ok ()], retained) ∧
      ∃ log, acted logWrite retaining (opened []) = some ([.ok (), .ok (), .ok ()], log) :=
  have reached : acted executeWrite retaining (opened .empty) =
      some ([.ok (), .ok (), .ok ()], retained) := rfl
  ⟨reached, (storage_refines_log reached).imp fun _ refined => refined.1⟩

end Results

end Grotto.Client.MlsStorage
