import Massa.Ledger.LedgerDb
import Mathlib

/-!
# The disk ledger against the abstract ledger

`getSubEntry_commitChanges` says what a commit does to each sub-entry on
disk.  Here that is compared with the abstract ledger of
`AbstractLedger.applyChanges`, whose entries are stored on disk as their
serialized sub-entries (`AbstractLedger.subEntry`).

The two agree for a change that is safe for the disk (`DiskSafeChange`): an
`Update` of an entry that exists, a `Set` that keeps every datastore key of
the entry it replaces, or a `Delete`.  They disagree otherwise: the writers
of an `Update` write only the fields it sets, so an update of an absent
address creates no version and no bytecode key (`entryExists_commitChanges`
below), and `put_entry` never deletes the datastore keys of the entry it
overwrites (`getDataEntry_commitChanges_set`).

Main results:
* `represents_commitAll` — along every run of commits whose changes are
  safe for the abstract ledger they are applied to, the disk stores the
  abstract ledger;
* `commitAll_reads_applyChanges` — and then `entry_exists`, `get_balance`,
  `get_bytecode` and `get_data_entry` return what the abstract ledger holds;
* `isKeyValueValid_of_putEntry` — every pair `put_entry` writes passes the
  bootstrap validator, except a datastore value of exactly the maximal
  length.
-/

namespace Massa

/-- The sub-entries of the abstract ledger, serialized as on disk. -/
def AbstractLedger.subEntry (L : AbstractLedger) (addr : Address) (kt : KeyType) : Option Bytes :=
  (L addr).bind fun entry => entry.subEntry kt

/-- A change that the disk writers apply as the abstract ledger does, on the
entry `old`: a `Set` that keeps every datastore key of the entry it replaces,
an `Update` of an existing entry, or a `Delete`. -/
def DiskSafeChange (old : Option LedgerEntry) :
    SetUpdateOrDelete LedgerEntry LedgerEntryUpdate → Prop
  | .set entry =>
    ∀ o ∈ old, ∀ key, (o.datastore.get? key).isSome → (entry.datastore.get? key).isSome
  | .update _ => old.isSome
  | .delete => True

/-- Every change of a change set is safe on the entry it is applied to. -/
def DiskSafe (L : AbstractLedger) (changes : LedgerChanges) : Prop :=
  ∀ addr change, changes.get? addr = some change → DiskSafeChange (L addr) change

/-- **One safe change, sub-entry by sub-entry**: what the disk leaves is the
serialization of the abstract result. -/
theorem diskApply_subEntry {old : Option LedgerEntry}
    {change : SetUpdateOrDelete LedgerEntry LedgerEntryUpdate} (hsafe : DiskSafeChange old change)
    (kt : KeyType) :
    diskApply (fun kt => old.bind fun entry => entry.subEntry kt) change kt =
      (SetUpdateOrDelete.applyToOpt old change).bind fun entry => entry.subEntry kt := by
  cases change with
  | set entry =>
    show (entry.subEntry kt).or (old.bind fun o => o.subEntry kt) = entry.subEntry kt
    cases kt with
    | datastore key =>
      show (entry.datastore.get? key).or _ = entry.datastore.get? key
      cases hnew : entry.datastore.get? key with
      | some value => rfl
      | none =>
        -- a key the new entry lacks was not in the old entry either
        have hold : (old.bind fun o => o.subEntry (.datastore key)) = none := by
          cases old with
          | none => rfl
          | some o =>
            show o.datastore.get? key = none
            cases hget : o.datastore.get? key with
            | none => rfl
            | some v =>
              have hkept := hsafe o rfl key (by rw [hget]; rfl)
              rw [hnew] at hkept
              cases hkept
        rw [hold]
        rfl
    | _ => rfl
  | update update =>
    obtain ⟨o, rfl⟩ := Option.isSome_iff_exists.mp hsafe
    show (update.subEntryWrite kt).getD (o.subEntry kt) = (o.apply update).subEntry kt
    cases kt with
    | version => rfl
    | balance =>
      show (fieldWrite amountSerialize update.balance).getD (some (amountSerialize o.balance)) =
        some (amountSerialize (update.balance.applyTo o.balance))
      cases update.balance <;> rfl
    | bytecode =>
      show (fieldWrite bytecodeSerialize update.bytecode).getD (some (bytecodeSerialize o.bytecode)) =
        some (bytecodeSerialize (update.bytecode.applyTo o.bytecode))
      cases update.bytecode <;> rfl
    | datastore key =>
      show ((update.datastore.get? key).map (SetOrDelete.applyToOpt none)).getD
          (o.datastore.get? key) = (o.apply update).datastore.get? key
      rw [congrFun (LedgerEntry.datastore_apply o update) key, Action.pointwise_apply]
      cases update.datastore.get? key with
      | none => rfl
      | some w => cases w <;> rfl
  | delete => rfl

namespace LedgerDB

variable {H : Type}

/-- The disk stores the abstract ledger `L`: every sub-entry key holds the
serialized sub-entry of `L`, and no other sub-entry key is present. -/
def Represents (self : LedgerDB H) (L : AbstractLedger) : Prop :=
  ∀ addr kt, self.getSubEntry addr kt = L.subEntry addr kt

section Commit

variable [XorOp H] [Zero H]

/-- **A commit of safe changes keeps the disk in step with the abstract
ledger.** -/
theorem represents_commitChanges {hashTuple : Bytes → Bytes → H} {self next : LedgerDB H}
    {L : AbstractLedger} {changes : LedgerChanges} {slot : Slot} (hrep : self.Represents L)
    (hsafe : DiskSafe L changes) (h : self.commitChanges hashTuple changes slot = some next) :
    next.Represents (L.applyChanges changes) := by
  intro addr kt
  have hstored : self.getSubEntry addr = fun kt => (L addr).bind fun entry => entry.subEntry kt :=
    funext (hrep addr)
  rw [getSubEntry_commitChanges h]
  cases hc : changes.get? addr with
  | none =>
    have hL : L.applyChanges changes addr = L addr := by
      rw [AbstractLedger.applyChanges, hc]
      rfl
    rw [AbstractLedger.subEntry, hL]
    exact hrep addr kt
  | some change =>
    have hL : L.applyChanges changes addr = SetUpdateOrDelete.applyToOpt (L addr) change := by
      rw [AbstractLedger.applyChanges, hc]
      rfl
    show diskApply (self.getSubEntry addr) change kt = _
    rw [AbstractLedger.subEntry, hL, hstored]
    exact diskApply_subEntry (hsafe addr change hc) kt

/-- **The disk ledger implements the abstract ledger along safe runs.**  From
a disk that stores `L`, every run of commits whose change sets are each safe
for the abstract ledger they are applied to ends on a disk that stores the
abstract ledger obtained by applying them in order. -/
theorem represents_commitAll {hashTuple : Bytes → Bytes → H} :
    ∀ (runs : List (LedgerChanges × Slot)) (self next : LedgerDB H) (L : AbstractLedger),
      self.Represents L →
      Layers.GoodRun (fun L run => L.applyChanges run.1) (fun L run => DiskSafe L run.1) L runs →
      self.commitAll hashTuple runs = some next →
      next.Represents (runs.foldl (fun L run => L.applyChanges run.1) L) := by
  intro runs
  induction runs with
  | nil =>
    intro self next L hrep _ h
    cases h
    exact hrep
  | cons run runs ih =>
    obtain ⟨changes, slot⟩ := run
    intro self next L hrep hrun h
    obtain ⟨hsafe, hrest⟩ := hrun
    rw [commitAll, Option.bind_eq_some_iff] at h
    obtain ⟨mid, hmid, hnext⟩ := h
    exact ih mid next _ (represents_commitChanges hrep hsafe hmid) hrest hnext

end Commit

/-! ### Reads -/

/-- A deserializing read of a sub-entry that holds a serialized value returns
the value. -/
theorem readSubEntry_eq {α : Type} (self : LedgerDB H) {deserialize : Bytes → Option (α × Bytes)}
    (serialize : α → Bytes) (msg : String) (addr : Address) (ty : KeyType) {value : Option α}
    (hread : self.getSubEntry addr ty = value.map serialize)
    (hround : ∀ v ∈ value, deserialize (serialize v) = some (v, [])) :
    self.readSubEntry deserialize msg addr ty = .ok value := by
  rw [readSubEntry, hread]
  cases value with
  | none => rfl
  | some v => simp only [Option.map_some, hround v rfl]

/-- **The reads of a disk that stores `L` are the reads of `L`**, given that
every bytecode fits the bytecode deserializer's bound. -/
theorem reads_of_represents {self : LedgerDB H} {L : AbstractLedger} (h : self.Represents L)
    (addr : Address)
    (hbytecode : ∀ entry ∈ L addr, entry.bytecode.bytes.length ≤ self.maxDatastoreValueLength.toNat) :
    self.entryExists addr = L.entryExists addr ∧ self.getBalance addr = .ok (L.getBalance addr) ∧
      self.getBytecode addr = .ok (L.getBytecode addr) ∧
      ∀ key, self.getDataEntry addr key = L.getDataEntry addr key := by
  refine ⟨?_, ?_, ?_, fun key => h addr (.datastore key)⟩
  · rw [entryExists, h, AbstractLedger.subEntry, AbstractLedger.entryExists]
    cases L addr <;> rfl
  · refine readSubEntry_eq self amountSerialize _ addr .balance ?_ fun v _ => ?_
    · rw [h, AbstractLedger.subEntry, AbstractLedger.getBalance]
      cases L addr <;> rfl
    · simpa using amountDeserialize_serialize v []
  · refine readSubEntry_eq self bytecodeSerialize _ addr .bytecode ?_ fun v hv => ?_
    · rw [h, AbstractLedger.subEntry, AbstractLedger.getBytecode]
      cases L addr <;> rfl
    · obtain ⟨entry, hentry, rfl⟩ := Option.mem_map.mp hv
      simpa using bytecodeDeserialize_serialize (hbytecode entry hentry) []

/-! ### Where the disk departs from the abstract ledger -/

section Divergence

variable [XorOp H] [Zero H] {hashTuple : Bytes → Bytes → H} {self next : LedgerDB H}
  {changes : LedgerChanges} {slot : Slot}

/-- **An update writes no version key**: whether the entry exists on disk is
unchanged by an `Update`, so an update of an absent address leaves it absent,
while the abstract ledger creates a default entry. -/
theorem entryExists_commitChanges (h : self.commitChanges hashTuple changes slot = some next)
    {addr : Address} {update : LedgerEntryUpdate}
    (hc : changes.get? addr = some (.update update)) :
    next.entryExists addr = self.entryExists addr := by
  rw [entryExists, entryExists, getSubEntry_commitChanges h, hc]
  rfl

/-- **A `Set` keeps the datastore keys it does not write**: `put_entry` never
deletes the datastore of the entry it overwrites. -/
theorem getDataEntry_commitChanges_set (h : self.commitChanges hashTuple changes slot = some next)
    {addr : Address} {entry : LedgerEntry} (hc : changes.get? addr = some (.set entry))
    {key : Bytes} (hkey : entry.datastore.get? key = none) :
    next.getDataEntry addr key = self.getDataEntry addr key := by
  rw [getDataEntry, getDataEntry, getSubEntry_commitChanges h, hc]
  show (entry.datastore.get? key).or _ = _
  rw [hkey]
  rfl

end Divergence

/-- The ledger of an empty database over slots with 4096-bit hashes. -/
def emptyLedgerDb : LedgerDB (BitVec 4096) := ⟨RawMassaDB.freshSlotDb, 32, 10000000, 255⟩

/-- An update of the balance of one address, keeping its bytecode. -/
def balanceUpdateChanges : LedgerChanges :=
  .singleton zeroAddress (.update ⟨.set ⟨5⟩, .keep, ∅⟩)

/-- A `Set` of one address to `entry`. -/
def setChanges (entry : LedgerEntry) : LedgerChanges := .singleton zeroAddress (.set entry)

/-- An entry with one datastore key. -/
def datastoreEntry : LedgerEntry := ⟨default, default, .singleton [7] [9]⟩

section Run

variable [XorOp H] [Zero H]

/-- **Along a safe run of commits the disk reads as the abstract ledger.**
From a disk that stores `L`, after a run of commits whose change sets are
each safe for the abstract ledger they are applied to, `entry_exists`,
`get_balance`, `get_bytecode` and `get_data_entry` return what the abstract
ledger after the same changes holds, given that its bytecodes fit the
bytecode deserializer's bound. -/
theorem commitAll_reads_applyChanges {hashTuple : Bytes → Bytes → H}
    {runs : List (LedgerChanges × Slot)} {self next : LedgerDB H} {L : AbstractLedger}
    (hrep : self.Represents L)
    (hrun : Layers.GoodRun (fun L run => L.applyChanges run.1) (fun L run => DiskSafe L run.1) L
      runs)
    (h : self.commitAll hashTuple runs = some next) (addr : Address)
    (hbytecode : ∀ entry ∈ (runs.foldl (fun L run => L.applyChanges run.1) L) addr,
      entry.bytecode.bytes.length ≤ next.maxDatastoreValueLength.toNat) :
    next.entryExists addr = (runs.foldl (fun L run => L.applyChanges run.1) L).entryExists addr ∧
      next.getBalance addr = .ok ((runs.foldl (fun L run => L.applyChanges run.1) L).getBalance
        addr) ∧
      next.getBytecode addr = .ok ((runs.foldl (fun L run => L.applyChanges run.1) L).getBytecode
        addr) ∧
      ∀ key, next.getDataEntry addr key =
        (runs.foldl (fun L run => L.applyChanges run.1) L).getDataEntry addr key := by
  have hnext := represents_commitAll runs self next L hrep hrun h
  exact reads_of_represents hnext addr hbytecode

end Run

/-- The empty disk after a `Set` of an entry with one datastore key reads
that key and the entry. -/
theorem commitAll_reads_applyChanges_datastoreEntry :
    ∃ next, emptyLedgerDb.commitAll RawMassaDB.lengthEntryHash
        [(setChanges datastoreEntry, ⟨1, 0⟩)] = some next ∧
      next.entryExists zeroAddress = true ∧ next.getDataEntry zeroAddress [7] = some [9] := by
  have hrep : emptyLedgerDb.Represents (fun _ => none) := fun _ _ => rfl
  have hsafe : DiskSafe (fun _ => none) (setChanges datastoreEntry) := by
    intro addr change hc
    rw [setChanges, SortedMap.get?_singleton] at hc
    split_ifs at hc
    cases hc
    intro o ho
    cases ho
  obtain ⟨next, hnext⟩ : ∃ next, emptyLedgerDb.commitChanges RawMassaDB.lengthEntryHash
      (setChanges datastoreEntry) ⟨1, 0⟩ = some next := commitChanges_isSome rfl (by decide)
  have hall : emptyLedgerDb.commitAll RawMassaDB.lengthEntryHash
      [(setChanges datastoreEntry, ⟨1, 0⟩)] = some next := by
    rw [commitAll, hnext, Option.bind_some, commitAll]
  have hL : ([(setChanges datastoreEntry, (⟨1, 0⟩ : Slot))].foldl
      (fun L run => L.applyChanges run.1) (fun _ => none) : AbstractLedger) zeroAddress =
      some datastoreEntry := rfl
  have hrun : Layers.GoodRun (fun L run => L.applyChanges run.1) (fun L run => DiskSafe L run.1)
      (fun _ => none) [(setChanges datastoreEntry, (⟨1, 0⟩ : Slot))] :=
    (Layers.goodRun_cons _ _ _ _ _).mpr ⟨hsafe, Layers.goodRun_nil _ _ _⟩
  obtain ⟨hexists, -, -, hdata⟩ := commitAll_reads_applyChanges hrep hrun hall
    zeroAddress fun entry hentry => by
      rw [hL, Option.mem_some_iff] at hentry
      subst hentry
      exact Nat.zero_le _
  exact ⟨next, hall, hexists.trans rfl, (hdata [7]).trans rfl⟩

/-! ### The bootstrap validator -/

/-- The validator on a stored key checks the value by the key's type. -/
theorem isKeyValueValid_serialize (self : LedgerDB H) (key : Key) (value : Bytes) :
    self.isKeyValueValid (key.serialize false) value = self.isValueValid key.keyType value := by
  have hpre : ledgerPrefix.isPrefixOf (key.serialize false) = true := by
    rw [List.isPrefixOf_iff_prefix]
    exact ⟨u64VarIntSerialize keyVersion ++ addressSerialize key.address ++
      key.keyType.serialize false, by simp [Key.serialize, keyPrefix]⟩
  rw [isKeyValueValid, hpre, Key.deserialize_serialize]
  rfl

/-- **What `put_entry` writes passes the validator, but for a datastore value
of the maximal length.**  A version, balance or bytecode (within the bytecode
bound) is accepted; a datastore value is accepted exactly when it is shorter
than `max_datastore_value_length`, while `put_entry` writes values up to that
length. -/
theorem isValueValid_subEntry (self : LedgerDB H) (entry : LedgerEntry) (kt : KeyType)
    {value : Bytes} (hvalue : entry.subEntry kt = some value)
    (hbytecode : entry.bytecode.bytes.length ≤ self.maxDatastoreValueLength.toNat) :
    self.isValueValid kt value = true ↔
      ∀ key, kt = .datastore key → value.length < self.maxDatastoreValueLength.toNat := by
  cases kt with
  | version =>
    cases hvalue
    refine iff_of_true ?_ fun key hk => by cases hk
    have hround : u64VarIntDeserialize (fun _ => true) (u64VarIntSerialize 0 ++ []) =
        some ((0 : UInt64).toNat, []) := u64VarIntDeserialize_serialize rfl []
    show parsesFully (u64VarIntDeserialize fun _ => true) (u64VarIntSerialize 0) = true
    exact parsesFully_of_eq (by simpa using hround)
  | balance =>
    cases hvalue
    have hround := amountDeserialize_serialize entry.balance []
    rw [List.append_nil] at hround
    exact iff_of_true (parsesFully_of_eq hround) fun key hk => by cases hk
  | bytecode =>
    cases hvalue
    have hround := bytecodeDeserialize_serialize hbytecode []
    rw [List.append_nil] at hround
    exact iff_of_true (parsesFully_of_eq hround) fun key hk => by cases hk
  | datastore key =>
    simp only [isValueValid, ge_iff_le, Bool.not_eq_true', decide_eq_false_iff_not, not_le,
      KeyType.datastore.injEq]
    exact ⟨fun hlt _ _ => hlt, fun hall => hall key rfl⟩

/-- **What `put_entry` writes passes the bootstrap validator, but for a
maximal datastore value.**  Each sub-entry of the entry is in the batch under
its key, and `is_key_value_valid` accepts it exactly when it is not a
datastore value of length at least `max_datastore_value_length`, the length up
to which `put_entry` writes without panicking. -/
theorem isKeyValueValid_of_putEntry {self : LedgerDB H} {addr : Address} {entry : LedgerEntry}
    {batch b : DBBatch} (h : self.putEntry addr entry batch = .ok b)
    (hbytecode : entry.bytecode.bytes.length ≤ self.maxDatastoreValueLength.toNat)
    (kt : KeyType) {value : Bytes} (hvalue : entry.subEntry kt = some value) :
    b.get? (Key.serialize false ⟨kt, addr⟩) = some (some value) ∧
      (self.isKeyValueValid (Key.serialize false ⟨kt, addr⟩) value = true ↔
        ∀ key, kt = .datastore key → value.length < self.maxDatastoreValueLength.toNat) := by
  refine ⟨?_, ?_⟩
  · -- a `Set` writes the serialized sub-entry under its key
    rw [putEntry_writesAt h ⟨kt, addr⟩, if_pos rfl]
    show ((entry.subEntry kt).map some).or _ = _
    rw [hvalue]
    rfl
  · rw [isKeyValueValid_serialize]
    exact isValueValid_subEntry self entry kt hvalue hbytecode

/-- The entry with one datastore key, written to the empty ledger: its value
of one byte is accepted. -/
theorem isKeyValueValid_of_putEntry_datastoreEntry :
    ∃ b, emptyLedgerDb.putEntry zeroAddress datastoreEntry ∅ = .ok b ∧
      b.get? (Key.serialize false ⟨.datastore [7], zeroAddress⟩) = some (some [9]) ∧
      emptyLedgerDb.isKeyValueValid (Key.serialize false ⟨.datastore [7], zeroAddress⟩) [9] =
        true := by
  obtain ⟨b, hb⟩ : ∃ b, emptyLedgerDb.putEntry zeroAddress datastoreEntry ∅ = .ok b :=
    putEntry_isOk _ _ _ fun e he => by
      rw [List.mem_singleton.mp he]
      decide
  obtain ⟨hget, hvalid⟩ := isKeyValueValid_of_putEntry hb (by decide) (.datastore [7]) rfl
  exact ⟨b, hb, hget, hvalid.mpr fun key hkey => by decide⟩

end LedgerDB

end Massa
