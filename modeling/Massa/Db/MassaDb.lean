import Massa.Lib.XorDigest
import Massa.Models.Basic
import Massa.Models.Slot
import Mathlib

/-!
# The state database (`massa-db-worker/src/massa_db.rs`)

`RawMassaDB` wraps a RocksDB instance with three column families: the state
(`STATE_CF`), the versioning data (`VERSIONING_CF`) and metadata holding the
current change id and the state hash.  Every write goes through
`write_changes`, which applies a batch to the state and versioning columns,
keeps the XOR hash of the state column up to date incrementally, records the
batch in a bounded change history (used to stream updates to bootstrapping
clients), and moves the change id forward.

Columns are ordered maps of byte strings (`SortedMap Bytes Bytes`), in
RocksDB's byte order.  The entry hash `HashXof::compute_from_tuple([k, v])`
is a parameter `hashTuple` of any type with a lawful XOR; the initial hash is
all zero bytes.  The change id is always present: the source reads it with
`expect`, and it is set when the database is created.

Main results:
* `writeChanges_hashConsistent` — one write keeps the stored hash equal to the
  digest of the state column;
* `getXofDbHash_runWrites` — along every sequence of writes (`write_changes`,
  `write_batch`, `delete_prefix`) from a fresh database the hash is the
  digest of the state column, so it depends on that column only, and writes
  to the versioning column alone leave it unchanged.
-/

namespace Massa

/-- `DBBatch = BTreeMap<Key, Option<Value>>`: `Some` puts, `None` deletes. -/
abbrev DBBatch := SortedMap Bytes (Option Bytes)

/-- `MassaDBController::put_or_update_entry_value`: add a put to a batch. -/
def putOrUpdateEntryValue (batch : DBBatch) (key value : Bytes) : DBBatch :=
  batch.insert key (some value)

/-- `MassaDBController::delete_key`: add a delete to a batch. -/
def deleteKey (batch : DBBatch) (key : Bytes) : DBBatch :=
  batch.insert key none

/-- The column families written by the modelled functions. -/
inductive ColumnFamily where
  | state
  | versioning
  | metadata
  deriving DecidableEq, Repr

/-- `MassaDBError`, with the variants the modelled functions return. -/
inductive MassaDBError where
  | invalidChangeID (msg : String)
  | cacheMissError (msg : String)
  | timeError (msg : String)
  deriving DecidableEq, Repr

/-- `MassaDBConfig`, with the limits the modelled functions read. -/
structure MassaDBConfig where
  maxHistoryLength : ℕ
  maxFinalStateElementsSize : ℕ
  maxVersioningElementsSize : ℕ
  deriving DecidableEq, Repr

/-- `RawMassaDB<ChangeID, _, _>`: the columns, the metadata and the change
histories. -/
structure RawMassaDB (ChangeID : Type) [LinearOrder ChangeID] (H : Type) where
  config : MassaDBConfig
  stateCf : SortedMap Bytes Bytes
  versioningCf : SortedMap Bytes Bytes
  /-- `CHANGE_ID_KEY` of `METADATA_CF`. -/
  changeId : ChangeID
  /-- `STATE_HASH_KEY` of `METADATA_CF`, absent until the first write. -/
  stateHash : Option H
  changeHistory : SortedMap ChangeID DBBatch
  changeHistoryVersioning : SortedMap ChangeID DBBatch

/-- The writes a node makes to its database. -/
inductive DbWrite (ChangeID : Type) where
  | writeChanges (changes versioningChanges : DBBatch) (changeId : Option ChangeID)
      (resetHistory : Bool)
  | writeBatch (batch versioningBatch : DBBatch) (changeId : Option ChangeID)
  | deletePrefix (pfx : Bytes) (handle : ColumnFamily) (changeId : Option ChangeID)

namespace RawMassaDB

variable {ChangeID : Type} [LinearOrder ChangeID] {H : Type} [XorOp H] [Zero H]

/-- `STATE_HASH_INITIAL_BYTES`: all zero bytes. -/
def stateHashInitialBytes : H := 0

/-- `RawMassaDB::get_xof_db_hash`: the stored hash, or the initial bytes. -/
def getXofDbHash (self : RawMassaDB ChangeID H) : H :=
  self.stateHash.getD stateHashInitialBytes

/-- The hash loop of `write_changes`: for each key of the batch, XOR out the
hash of the value stored before the batch, if any, and XOR in the new one. -/
def xorChanges (hashTuple : Bytes → Bytes → H) (self : RawMassaDB ChangeID H)
    (changes : DBBatch) (current : H) : H :=
  changes.entries.foldl (fun acc e =>
    let withoutPrev :=
      match self.stateCf.get? e.1 with
      | some prevValue => acc ^^^ hashTuple e.1 prevValue
      | none => acc
    match e.2 with
    | some value => withoutPrev ^^^ hashTuple e.1 value
    | none => withoutPrev) current

/-- Record a batch under a change id: insert it, or extend the batch already
recorded under that id. -/
def recordChanges (history : SortedMap ChangeID DBBatch) (changeId : ChangeID)
    (changes : DBBatch) : SortedMap ChangeID DBBatch :=
  match history.get? changeId with
  | none => history.insert changeId changes
  | some existing => history.insert changeId (existing.extend changes)

/-- `while history.len() > max_history_length { history.pop_first() }`. -/
def trimHistory (maxHistoryLength : ℕ) (history : SortedMap ChangeID DBBatch) :
    SortedMap ChangeID DBBatch :=
  history.dropFirst (history.size - maxHistoryLength)

/-- `RawMassaDB::write_changes`. -/
def writeChanges (hashTuple : Bytes → Bytes → H) (self : RawMassaDB ChangeID H)
    (changes versioningChanges : DBBatch) (changeId : Option ChangeID) (resetHistory : Bool) :
    Except MassaDBError (RawMassaDB ChangeID H) :=
  if changeId.any (fun c => decide (c < self.changeId)) then
    .error (.invalidChangeID "change_id should monotonically increase after every write")
  else
    let newChangeId := changeId.getD self.changeId
    let changeHistory := recordChanges self.changeHistory newChangeId changes
    .ok { self with
      stateCf := self.stateCf.writeAll changes.entries
      -- versioning data is kept out of the hash
      versioningCf := self.versioningCf.writeAll versioningChanges.entries
      changeId := newChangeId
      stateHash := some (xorChanges hashTuple self changes self.getXofDbHash)
      changeHistory :=
        trimHistory self.config.maxHistoryLength (if resetHistory then ∅ else changeHistory)
      changeHistoryVersioning := trimHistory self.config.maxHistoryLength
        (recordChanges self.changeHistoryVersioning newChangeId versioningChanges) }

/-- `MassaDBController::write_batch`: `write_changes` without resetting the
history (the source panics on an error). -/
def writeBatch (hashTuple : Bytes → Bytes → H) (self : RawMassaDB ChangeID H)
    (batch versioningBatch : DBBatch) (changeId : Option ChangeID) :
    Except MassaDBError (RawMassaDB ChangeID H) :=
  self.writeChanges hashTuple batch versioningBatch changeId false

/-- The batch of `delete_prefix`: a delete of every key of the column with the
prefix, found by iterating from the prefix until the first key without it. -/
def prefixBatch (cf : SortedMap Bytes Bytes) (pfx : Bytes) : DBBatch :=
  ((cf.iterFrom pfx).takeWhile fun e => pfx.isPrefixOf e.1).foldl
    (fun batch e => batch.insert e.1 none) ∅

/-- `MassaDBController::delete_prefix`. -/
def deletePrefix (hashTuple : Bytes → Bytes → H) (self : RawMassaDB ChangeID H) (pfx : Bytes)
    (handle : ColumnFamily) (changeId : Option ChangeID) :
    Except MassaDBError (RawMassaDB ChangeID H) :=
  match handle with
  | .state => self.writeBatch hashTuple (prefixBatch self.stateCf pfx) ∅ changeId
  | .versioning => self.writeBatch hashTuple ∅ (prefixBatch self.versioningCf pfx) changeId
  | .metadata => .ok self

/-- One write. -/
def applyWrite (hashTuple : Bytes → Bytes → H) (self : RawMassaDB ChangeID H) :
    DbWrite ChangeID → Except MassaDBError (RawMassaDB ChangeID H)
  | .writeChanges changes versioningChanges changeId resetHistory =>
    self.writeChanges hashTuple changes versioningChanges changeId resetHistory
  | .writeBatch batch versioningBatch changeId =>
    self.writeBatch hashTuple batch versioningBatch changeId
  | .deletePrefix pfx handle changeId => self.deletePrefix hashTuple pfx handle changeId

/-- A sequence of writes; a write that fails leaves the database as it was. -/
def runWrites (hashTuple : Bytes → Bytes → H) (self : RawMassaDB ChangeID H) :
    List (DbWrite ChangeID) → RawMassaDB ChangeID H
  | [] => self
  | w :: ws =>
    match self.applyWrite hashTuple w with
    | .ok next => runWrites hashTuple next ws
    | .error _ => runWrites hashTuple self ws

/-- A database as created: an empty state column and no stored hash. -/
def IsFresh (self : RawMassaDB ChangeID H) : Prop :=
  self.stateCf = ∅ ∧ self.stateHash = none

/-- A write succeeds exactly when the change id does not go back. -/
theorem writeChanges_isOk {hashTuple : Bytes → Bytes → H} {self : RawMassaDB ChangeID H}
    {changes versioningChanges : DBBatch} {changeId : Option ChangeID} {resetHistory : Bool}
    (h : ∀ c ∈ changeId, self.changeId ≤ c) :
    ∃ next, self.writeChanges hashTuple changes versioningChanges changeId resetHistory = .ok next := by
  have hmono : changeId.any (fun c => decide (c < self.changeId)) = false := by
    cases changeId with
    | none => rfl
    | some c => simpa using h c rfl
  rw [writeChanges, if_neg (by simp [hmono])]
  exact ⟨_, rfl⟩

/-- What a successful write does to the columns and the change id. -/
theorem writeChanges_eq_ok {hashTuple : Bytes → Bytes → H} {self next : RawMassaDB ChangeID H}
    {changes versioningChanges : DBBatch} {changeId : Option ChangeID} {resetHistory : Bool}
    (hw : self.writeChanges hashTuple changes versioningChanges changeId resetHistory = .ok next) :
    next.stateCf = self.stateCf.writeAll changes.entries ∧
      next.versioningCf = self.versioningCf.writeAll versioningChanges.entries ∧
      next.changeId = changeId.getD self.changeId ∧ next.config = self.config := by
  unfold writeChanges at hw
  split at hw
  · cases hw
  · injection hw with hw
    subst hw
    exact ⟨rfl, rfl, rfl, rfl⟩

/-! ### The state hash -/

section Hash

variable [LawfulXor H] (hashTuple : Bytes → Bytes → H)

/-- The stored hash is the initial bytes XOR the digest of the state column. -/
def HashConsistent (self : RawMassaDB ChangeID H) : Prop :=
  self.getXofDbHash = stateHashInitialBytes ^^^ SortedMap.xorDigest hashTuple self.stateCf

/-- The hash loop adds the XOR of the per-key deltas, each against the state
column before the batch. -/
theorem xorChanges_eq (self : RawMassaDB ChangeID H) (changes : DBBatch) (current : H) :
    xorChanges hashTuple self changes current =
      current ^^^ xorSum (changes.entries.map fun e =>
        SortedMap.xorDelta hashTuple e.1 (self.stateCf.get? e.1) e.2) := by
  rw [xorChanges, ← foldl_xor]
  apply List.foldl_ext
  rintro acc ⟨k, v⟩ -
  simp only [SortedMap.xorDelta]
  cases self.stateCf.get? k <;> cases v <;> simp [LawfulXor.xor_assoc]

omit [LawfulXor H] in
/-- A write with no state changes leaves the hash as it was. -/
theorem getXofDbHash_writeChanges_empty {self next : RawMassaDB ChangeID H}
    {versioningChanges : DBBatch} {changeId : Option ChangeID} {resetHistory : Bool}
    (hw : self.writeChanges hashTuple ∅ versioningChanges changeId resetHistory = .ok next) :
    next.getXofDbHash = self.getXofDbHash := by
  unfold writeChanges at hw
  split at hw
  · cases hw
  · injection hw with hw
    subst hw
    rfl

/-- **One write keeps the hash consistent.** -/
theorem writeChanges_hashConsistent {self next : RawMassaDB ChangeID H}
    {changes versioningChanges : DBBatch} {changeId : Option ChangeID} {resetHistory : Bool}
    (h : self.HashConsistent hashTuple)
    (hw : self.writeChanges hashTuple changes versioningChanges changeId resetHistory = .ok next) :
    next.HashConsistent hashTuple := by
  unfold writeChanges at hw
  split at hw
  · cases hw
  · injection hw with hw
    subst hw
    -- the new hash adds the batch's deltas, and so does the new digest
    show (xorChanges hashTuple self changes self.getXofDbHash) =
      stateHashInitialBytes ^^^ SortedMap.xorDigest hashTuple (self.stateCf.writeAll changes.entries)
    rw [SortedMap.xorDigest_writeAll _ _ _ changes.nodup_keys, xorChanges_eq, h,
      LawfulXor.xor_assoc]

theorem applyWrite_hashConsistent {self next : RawMassaDB ChangeID H} {w : DbWrite ChangeID}
    (h : self.HashConsistent hashTuple) (hw : self.applyWrite hashTuple w = .ok next) :
    next.HashConsistent hashTuple := by
  cases w with
  | writeChanges changes versioningChanges changeId resetHistory =>
    exact writeChanges_hashConsistent hashTuple h hw
  | writeBatch batch versioningBatch changeId =>
    exact writeChanges_hashConsistent hashTuple h hw
  | deletePrefix pfx handle changeId =>
    cases handle with
    | state => exact writeChanges_hashConsistent hashTuple h hw
    | versioning => exact writeChanges_hashConsistent hashTuple h hw
    | metadata =>
      injection hw with hw
      exact hw ▸ h

/-- Every run of writes keeps the hash consistent. -/
theorem runWrites_hashConsistent (ws : List (DbWrite ChangeID)) :
    ∀ self : RawMassaDB ChangeID H, self.HashConsistent hashTuple →
      (self.runWrites hashTuple ws).HashConsistent hashTuple := by
  induction ws with
  | nil => exact fun _ h => h
  | cons w ws ih =>
    intro self h
    rw [runWrites]
    split
    · next next hw => exact ih next (applyWrite_hashConsistent hashTuple h hw)
    · exact ih self h

theorem hashConsistent_of_isFresh {self : RawMassaDB ChangeID H} (h : self.IsFresh) :
    self.HashConsistent hashTuple := by
  obtain ⟨hcf, hhash⟩ := h
  rw [HashConsistent, getXofDbHash, hhash, hcf, SortedMap.xorDigest_empty, LawfulXor.xor_zero]
  rfl

/-- **The state hash is a function of the state column.**  After any writes
from fresh databases, the hash is the initial bytes XOR the digest of the
state column; two databases whose state columns agree report the same hash,
whatever writes built them; and a write to the versioning column alone does
not change the hash. -/
theorem getXofDbHash_runWrites (db₁ db₂ : RawMassaDB ChangeID H) (h₁ : db₁.IsFresh)
    (h₂ : db₂.IsFresh) (ws₁ ws₂ : List (DbWrite ChangeID)) :
    (db₁.runWrites hashTuple ws₁).getXofDbHash =
        stateHashInitialBytes ^^^ SortedMap.xorDigest hashTuple (db₁.runWrites hashTuple ws₁).stateCf ∧
      ((db₁.runWrites hashTuple ws₁).stateCf = (db₂.runWrites hashTuple ws₂).stateCf →
        (db₁.runWrites hashTuple ws₁).getXofDbHash = (db₂.runWrites hashTuple ws₂).getXofDbHash) ∧
      (∀ (self next : RawMassaDB ChangeID H) versioningChanges changeId resetHistory,
        self.writeChanges hashTuple ∅ versioningChanges changeId resetHistory = .ok next →
          next.getXofDbHash = self.getXofDbHash) := by
  have hc₁ := runWrites_hashConsistent hashTuple ws₁ db₁ (hashConsistent_of_isFresh hashTuple h₁)
  have hc₂ := runWrites_hashConsistent hashTuple ws₂ db₂ (hashConsistent_of_isFresh hashTuple h₂)
  refine ⟨hc₁, fun hcf => ?_, fun _ _ _ _ _ hw => getXofDbHash_writeChanges_empty hashTuple hw⟩
  rw [hc₁, hc₂, hcf]

/-- A fresh database over slots with 4096-bit hashes, as `HashXof<512>`. -/
def freshSlotDb : RawMassaDB Slot (BitVec 4096) :=
  ⟨⟨10, 100, 100⟩, ∅, ∅, ⟨0, 0⟩, none, ∅, ∅⟩

/-- An entry hash for the example: the lengths of key and value. -/
def lengthEntryHash (k v : Bytes) : BitVec 4096 := BitVec.ofNat 4096 (k.length * 256 + v.length)

theorem getXofDbHash_runWrites_of_fresh :
    freshSlotDb.IsFresh ∧
      ((freshSlotDb.runWrites lengthEntryHash
            [.writeBatch (SortedMap.singleton [1] (some [2])) ∅ (some ⟨1, 0⟩)]).getXofDbHash =
          stateHashInitialBytes ^^^ SortedMap.xorDigest lengthEntryHash (freshSlotDb.runWrites
            lengthEntryHash [.writeBatch (SortedMap.singleton [1] (some [2])) ∅ (some ⟨1, 0⟩)]).stateCf ∧
        ((freshSlotDb.runWrites lengthEntryHash
              [.writeBatch (SortedMap.singleton [1] (some [2])) ∅ (some ⟨1, 0⟩)]).stateCf =
            (freshSlotDb.runWrites lengthEntryHash
              [.deletePrefix [] .versioning none,
                .writeChanges (SortedMap.singleton [1] (some [2])) ∅ (some ⟨2, 0⟩) true]).stateCf →
          (freshSlotDb.runWrites lengthEntryHash
              [.writeBatch (SortedMap.singleton [1] (some [2])) ∅ (some ⟨1, 0⟩)]).getXofDbHash =
            (freshSlotDb.runWrites lengthEntryHash
              [.deletePrefix [] .versioning none,
                .writeChanges (SortedMap.singleton [1] (some [2])) ∅ (some ⟨2, 0⟩) true]).getXofDbHash) ∧
        (∀ (self next : RawMassaDB Slot (BitVec 4096)) versioningChanges changeId resetHistory,
          self.writeChanges lengthEntryHash ∅ versioningChanges changeId resetHistory = .ok next →
            next.getXofDbHash = self.getXofDbHash)) := by
  have hfresh : freshSlotDb.IsFresh := ⟨rfl, rfl⟩
  exact ⟨hfresh, getXofDbHash_runWrites lengthEntryHash freshSlotDb freshSlotDb hfresh hfresh _ _⟩

end Hash

end RawMassaDB

end Massa
