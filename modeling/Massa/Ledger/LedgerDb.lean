import Massa.Db.MassaDb
import Massa.Ledger.Changes
import Massa.Lib.Layers
import Massa.Lib.Lists
import Massa.Models.Serialization

/-!
# The ledger on disk (`massa-ledger-worker`, `massa-ledger-exports/src/key.rs`)

The final ledger lives in the state column of the database, one key per
sub-entry of an address: `"ledger/"`, the key version, the address, then the
key type byte (`VERSION`, `BALANCE`, `BYTECODE`) or the `DATASTORE` byte
followed by the datastore key.  `LedgerDB::apply_changes_to_batch` turns
`LedgerChanges` into a write batch, with `put_entry` for a `Set`,
`update_entry` for an `Update` and `delete_entry` for a `Delete`, and the
final state commits the batch with `write_batch`.  Each read of
`FinalLedger` looks up one key.

Main results:
* `Key.deserialize_serialize` — the key layout can be read back, so distinct
  sub-entries have distinct keys (`Key.serialize_injective`);
* `getSubEntry_commitChanges` — after a commit each sub-entry is what
  `diskApply` says: a `Set` writes every sub-entry of the new entry but keeps
  the datastore keys the new entry lacks, an `Update` writes only what it
  sets, a `Delete` removes every sub-entry;
* `represents_commitAll` — so along every run of commits whose changes are
  safe for the disk (`DiskSafe`: no `Update` of an absent address, no `Set`
  that drops a datastore key) the disk stores the abstract ledger of
  `AbstractLedger.applyChanges`, and the reads agree with it
  (`reads_of_represents`);
* `isKeyValueValid_serialize` — what the bootstrap validator accepts of a
  stored sub-entry.

`FinalLedger` builds its `LedgerDB` from its own configuration, so its reads
are modelled on the `LedgerDB` with the same limits.
-/

namespace Massa

/-! ### Keys -/

/-- `LEDGER_PREFIX`: the bytes of `"ledger/"`. -/
def ledgerPrefix : Bytes := [108, 101, 100, 103, 101, 114, 47]

/-- `KEY_VERSION`. -/
def keyVersion : UInt64 := 0

/-- `KeyType`; `LedgerSubEntry` of `ledger_db.rs` names the same four kinds
and `derive_key` maps it to this one. -/
inductive KeyType where
  | version
  | balance
  | bytecode
  | datastore (key : Bytes)
  deriving DecidableEq, Repr

/-- `Key`: a sub-entry of an address. -/
structure Key where
  keyType : KeyType
  address : Address
  deriving DecidableEq, Repr

namespace KeyType

/-- `KeyTypeSerializer::serialize`: the `KeyTypeId` byte, then for a datastore
key its bytes, prefixed by their length if `withDatastoreKeyLength`. -/
def serialize (withDatastoreKeyLength : Bool) : KeyType → Bytes
  | version => [0]
  | balance => [1]
  | bytecode => [2]
  | datastore data => 3 :: if withDatastoreKeyLength then vecU8Serialize data else data

/-- `KeyTypeDeserializer::deserialize`; without the length, a datastore key is
the whole rest of the input. -/
def deserialize (maxDatastoreKeyLength : UInt8) (withDatastoreKeyLength : Bool) :
    Bytes → Option (KeyType × Bytes)
  | [] => none
  | keyType :: rest =>
    if keyType = 1 then some (balance, rest)
    else if keyType = 2 then some (bytecode, rest)
    else if keyType = 3 then
      if withDatastoreKeyLength then
        (vecU8Deserialize 0 maxDatastoreKeyLength.toNat rest).map fun r => (datastore r.1, r.2)
      else some (datastore rest, [])
    else if keyType = 0 then some (version, rest)
    else none

theorem deserialize_serialize (maxDatastoreKeyLength : UInt8) (keyType : KeyType) :
    deserialize maxDatastoreKeyLength false (keyType.serialize false) = some (keyType, []) := by
  cases keyType <;> rfl

end KeyType

/-- The bytes every key of `address` starts with: the prefix, the key version
and the address. -/
def keyPrefix (address : Address) : Bytes :=
  ledgerPrefix ++ u64VarIntSerialize keyVersion ++ addressSerialize address

namespace Key

/-- `KeySerializer::serialize`. -/
def serialize (withDatastoreKeyLength : Bool) (value : Key) : Bytes :=
  keyPrefix value.address ++ value.keyType.serialize withDatastoreKeyLength

/-- `KeyDeserializer::deserialize`: skip the prefix, then read the key version
(any `u64`), the address and the key type. -/
def deserialize (maxDatastoreKeyLength : UInt8) (withDatastoreKeyLength : Bool)
    (buffer : Bytes) : Option (Key × Bytes) :=
  match u64VarIntDeserialize (fun _ => true) (buffer.drop ledgerPrefix.length) with
  | some (_, rest) =>
    match addressDeserialize rest with
    | some (address, rest) =>
      (KeyType.deserialize maxDatastoreKeyLength withDatastoreKeyLength rest).map
        fun r => (⟨r.1, address⟩, r.2)
    | none => none
  | none => none

/-- **Keys read back**: the database's key layout (without datastore key
lengths) is decoded to the key, with nothing left over. -/
theorem deserialize_serialize (maxDatastoreKeyLength : UInt8) (key : Key) :
    deserialize maxDatastoreKeyLength false (key.serialize false) = some (key, []) := by
  have hdrop : (key.serialize false).drop ledgerPrefix.length =
      u64VarIntSerialize keyVersion ++ (addressSerialize key.address ++ key.keyType.serialize false) := by
    rw [serialize, keyPrefix, List.append_assoc, List.append_assoc, List.drop_left]
  rw [deserialize, hdrop, u64VarIntDeserialize_serialize rfl]
  dsimp only
  rw [addressDeserialize_serialize]
  dsimp only
  rw [KeyType.deserialize_serialize]
  rfl

theorem serialize_injective : Function.Injective (serialize false) := by
  intro k₁ k₂ h
  have h₁ := deserialize_serialize 0 k₁
  rw [h, deserialize_serialize] at h₁
  exact (Prod.mk.inj (Option.some_inj.mp h₁)).1.symm

@[simp] theorem serialize_inj {k₁ k₂ : Key} : serialize false k₁ = serialize false k₂ ↔ k₁ = k₂ :=
  serialize_injective.eq_iff

end Key

/-- `datastore_prefix_from_address`: the prefix of the datastore keys of
`address` that start with `pfx`. -/
def datastorePrefixFromAddress (address : Address) (pfx : Bytes) : Bytes :=
  -- `DATASTORE_IDENT`
  keyPrefix address ++ 3 :: pfx

/-- The exclusive end of `get_prefix_bounds(prefix)` (`end_prefix`): drop the
trailing `255` bytes and increment the last remaining one; `None` (unbounded)
when no byte remains. -/
def endPrefix (pfx : Bytes) : Option Bytes :=
  match pfx.reverse.dropWhile fun v => ¬ v < 255 with
  | [] => none
  | last :: init => some ((last + 1) :: init).reverse

theorem endPrefix_datastorePrefix (address : Address) :
    endPrefix (datastorePrefixFromAddress address []) = some (keyPrefix address ++ [4]) := by
  rw [endPrefix, datastorePrefixFromAddress, List.reverse_append, List.reverse_singleton,
    List.singleton_append, List.dropWhile_cons, if_neg (by decide)]
  simp only [List.reverse_cons, List.reverse_reverse, Option.some.injEq]
  rfl

theorem length_keyPrefix (address : Address) : (keyPrefix address).length = 42 := by
  simp [keyPrefix, ledgerPrefix, u64VarIntSerialize, keyVersion, Varint.encode_of_lt,
    length_addressSerialize]

theorem keyPrefix_injective : Function.Injective keyPrefix := by
  intro a b h
  exact addressSerialize_injective (List.append_cancel_left h)

/-- **The scan of `delete_entry` visits the datastore of the address.**  The
key of a sub-entry lies between `datastore_prefix_from_address(addr, [])` and
its end prefix exactly when it is a datastore key of `addr`. -/
theorem serialize_mem_datastoreRange (addr : Address) (key : Key) :
    (datastorePrefixFromAddress addr [] ≤ key.serialize false ∧
        key.serialize false ≤ keyPrefix addr ++ [4]) ↔
      key.address = addr ∧ ∃ d, key.keyType = .datastore d := by
  obtain ⟨kt, a⟩ := key
  have hlen : (keyPrefix a).length = (keyPrefix addr).length := by
    rw [length_keyPrefix, length_keyPrefix]
  by_cases ha : a = addr
  · -- the same address: compare the key type bytes with `[3]` and `[4]`
    subst ha
    simp only [Key.serialize, datastorePrefixFromAddress, List.append_le_append_left_iff,
      true_and]
    cases kt with
    | datastore d =>
      have hlo : ([3] : Bytes) ≤ 3 :: d := by
        cases d with
        | nil => exact le_rfl
        | cons x d => exact (show ([3] : Bytes) < 3 :: x :: d from List.Lex.cons List.Lex.nil).le
      have hhi : (3 :: d : Bytes) ≤ [4] := (show (3 :: d : Bytes) < [4] from
        List.Lex.rel (by decide)).le
      exact ⟨fun _ => ⟨d, rfl⟩, fun _ => ⟨hlo, hhi⟩⟩
    | version => simp only [KeyType.serialize, reduceCtorEq, exists_false, iff_false]; decide
    | balance => simp only [KeyType.serialize, reduceCtorEq, exists_false, iff_false]; decide
    | bytecode => simp only [KeyType.serialize, reduceCtorEq, exists_false, iff_false]; decide
  · -- another address: its whole key is below or above the range
    simp only [ha, false_and, iff_false, not_and, not_le]
    intro hlo
    rcases lt_or_gt_of_ne (fun h => ha (keyPrefix_injective h)) with hlt | hgt
    · have hbelow := List.append_lt_append_of_lt hlen hlt (kt.serialize false) [3]
      exact absurd hlo (not_le.mpr hbelow)
    · exact List.append_lt_append_of_lt hlen.symm hgt [4] (kt.serialize false)

/-! ### The ledger database and its writers -/

/-- `LedgerDB`: the database it reads and the limits its writers check. -/
structure LedgerDB (H : Type) where
  db : RawMassaDB Slot H
  threadCount : UInt8
  maxDatastoreValueLength : UInt64
  maxDatastoreKeyLength : UInt8

/-- The panics of the writers, with what their messages print. -/
inductive LedgerPanic where
  /-- `"Datastore entry for address {} and key {:?} is too big ({} > {})"`;
  the message of `update_entry` has no key. -/
  | datastoreEntryTooBig (addr : Address) (key : Option Bytes) (len max : ℕ)
  /-- `"Datastore key for address {} and key {:?} is too big ({} > {})"`. -/
  | datastoreKeyTooBig (addr : Address) (key : Bytes) (len max : ℕ)
  deriving DecidableEq, Repr

namespace LedgerDB

variable {H : Type}

/-- `put_entry`: the version, balance and bytecode, then every datastore
entry, each checked against the limits first. -/
def putEntry (self : LedgerDB H) (addr : Address) (ledgerEntry : LedgerEntry) (batch : DBBatch) :
    Except LedgerPanic DBBatch :=
  let batch := putOrUpdateEntryValue batch (Key.serialize false ⟨.version, addr⟩)
    (u64VarIntSerialize 0)
  let batch := putOrUpdateEntryValue batch (Key.serialize false ⟨.balance, addr⟩)
    (amountSerialize ledgerEntry.balance)
  let batch := putOrUpdateEntryValue batch (Key.serialize false ⟨.bytecode, addr⟩)
    (bytecodeSerialize ledgerEntry.bytecode)
  ledgerEntry.datastore.entries.foldlM (fun batch e =>
    if e.2.length > self.maxDatastoreValueLength.toNat then
      .error (.datastoreEntryTooBig addr (some e.1) e.2.length self.maxDatastoreValueLength.toNat)
    else if e.1.length > self.maxDatastoreKeyLength.toNat then
      .error (.datastoreKeyTooBig addr e.1 e.1.length self.maxDatastoreKeyLength.toNat)
    else .ok (putOrUpdateEntryValue batch (Key.serialize false ⟨.datastore e.1, addr⟩) e.2)) batch

/-- The write of one `SetOrKeep` field by `update_entry`: a `Set` puts the
serialized value under the field's key, a `Keep` writes nothing. -/
def putFieldUpdate {α : Type} (addr : Address) (ty : KeyType) (serialize : α → Bytes)
    (field : SetOrKeep α) (batch : DBBatch) : DBBatch :=
  match field with
  | .set value => putOrUpdateEntryValue batch (Key.serialize false ⟨ty, addr⟩) (serialize value)
  | .keep => batch

/-- `update_entry`: the fields the update sets, then its datastore writes,
the key checked before the value. -/
def updateEntry (self : LedgerDB H) (addr : Address) (entryUpdate : LedgerEntryUpdate)
    (batch : DBBatch) : Except LedgerPanic DBBatch :=
  let batch := putFieldUpdate addr .balance amountSerialize entryUpdate.balance batch
  let batch := putFieldUpdate addr .bytecode bytecodeSerialize entryUpdate.bytecode batch
  entryUpdate.datastore.entries.foldlM (fun batch e =>
    if e.1.length > self.maxDatastoreKeyLength.toNat then
      .error (.datastoreKeyTooBig addr e.1 e.1.length self.maxDatastoreKeyLength.toNat)
    else
      match e.2 with
      | .set entry =>
        if entry.length > self.maxDatastoreValueLength.toNat then
          .error (.datastoreEntryTooBig addr none entry.length self.maxDatastoreValueLength.toNat)
        else .ok (putOrUpdateEntryValue batch (Key.serialize false ⟨.datastore e.1, addr⟩) entry)
      | .delete => .ok (deleteKey batch (Key.serialize false ⟨.datastore e.1, addr⟩))) batch

/-- `delete_entry`: the version, balance and bytecode, then every key of the
state column from `datastore_prefix_from_address(addr, [])` up to its end
prefix, included. -/
def deleteEntry (self : LedgerDB H) (addr : Address) (batch : DBBatch) : DBBatch :=
  let batch := deleteKey batch (Key.serialize false ⟨.version, addr⟩)
  let batch := deleteKey batch (Key.serialize false ⟨.balance, addr⟩)
  let batch := deleteKey batch (Key.serialize false ⟨.bytecode, addr⟩)
  let keyPrefix := datastorePrefixFromAddress addr []
  match endPrefix keyPrefix with
  | some last =>
    ((self.db.stateCf.iterFrom keyPrefix).takeWhile fun e => decide (e.1 ≤ last)).foldl
      (fun batch e => deleteKey batch e.1) batch
  -- `end_prefix(&key_prefix).unwrap()` never fails: the prefix ends with
  -- `DATASTORE_IDENT` (`endPrefix_datastorePrefix`)
  | none => batch

/-- The write of the change of one address. -/
def writeChange (self : LedgerDB H) (addr : Address)
    (change : SetUpdateOrDelete LedgerEntry LedgerEntryUpdate) (batch : DBBatch) :
    Except LedgerPanic DBBatch :=
  match change with
  | .set newEntry => self.putEntry addr newEntry batch
  | .update entryUpdate => self.updateEntry addr entryUpdate batch
  | .delete => .ok (self.deleteEntry addr batch)

/-- `apply_changes_to_batch`: the changes of every address in turn. -/
def applyChangesToBatch (self : LedgerDB H) (changes : LedgerChanges) (batch : DBBatch) :
    Except LedgerPanic DBBatch :=
  changes.entries.foldlM (fun batch e => self.writeChange e.1 e.2 batch) batch

section Commit

variable [XorOp H] [Zero H]

/-- The ledger's part of `FinalState::finalize`: the changes of a slot written
to a batch and committed with `write_batch` under the slot; `none` where the
node panics. -/
def commitChanges (hashTuple : Bytes → Bytes → H) (self : LedgerDB H) (changes : LedgerChanges)
    (slot : Slot) : Option (LedgerDB H) :=
  match self.applyChangesToBatch changes ∅ with
  | .ok batch =>
    match self.db.writeBatch hashTuple batch ∅ (some slot) with
    | .ok db => some { self with db := db }
    | .error _ => none
  | .error _ => none

/-- Commits of successive slots. -/
def commitAll (hashTuple : Bytes → Bytes → H) (self : LedgerDB H) :
    List (LedgerChanges × Slot) → Option (LedgerDB H)
  | [] => some self
  | (changes, slot) :: rest =>
    (self.commitChanges hashTuple changes slot).bind fun next => next.commitAll hashTuple rest

end Commit

/-! ### Reads -/

/-- `LedgerDB::get_sub_entry`. -/
def getSubEntry (self : LedgerDB H) (addr : Address) (ty : KeyType) : Option Bytes :=
  self.db.stateCf.get? (Key.serialize false ⟨ty, addr⟩)

/-- The reads of `FinalLedger` that deserialize a sub-entry; `expect` panics
with `msg` on a value that does not deserialize. -/
def readSubEntry {α : Type} (self : LedgerDB H) (deserialize : Bytes → Option (α × Bytes))
    (msg : String) (addr : Address) (ty : KeyType) : Except String (Option α) :=
  match self.getSubEntry addr ty with
  | some bytes =>
    match deserialize bytes with
    | some (value, _) => .ok (some value)
    | none => .error msg
  | none => .ok none

/-- `FinalLedger::get_balance`. -/
def getBalance (self : LedgerDB H) (addr : Address) : Except String (Option Amount) :=
  self.readSubEntry amountDeserialize "critical: invalid balance format" addr .balance

/-- `FinalLedger::get_bytecode`. -/
def getBytecode (self : LedgerDB H) (addr : Address) : Except String (Option Bytecode) :=
  self.readSubEntry (bytecodeDeserialize self.maxDatastoreValueLength)
    "critical: invalid bytecode format" addr .bytecode

/-- `FinalLedger::entry_exists`: the version key is present. -/
def entryExists (self : LedgerDB H) (addr : Address) : Bool :=
  (self.getSubEntry addr .version).isSome

/-- `FinalLedger::get_data_entry`. -/
def getDataEntry (self : LedgerDB H) (addr : Address) (key : Bytes) : Option Bytes :=
  self.getSubEntry addr (.datastore key)

/-- `LedgerDB::get_datastore_keys`: `None` without a balance key, else the
datastore keys with the prefix, found by a scan up to the end prefix (the
keys come sorted and distinct, as the `BTreeSet` holds them). -/
def getDatastoreKeys (self : LedgerDB H) (addr : Address) (pfx : Bytes) :
    Except String (Option (List Bytes)) :=
  match self.getSubEntry addr .balance with
  | none => .ok none
  | some _ =>
    let startPrefix := datastorePrefixFromAddress addr pfx
    let scanned := (self.db.stateCf.iterFrom startPrefix).takeWhile fun e =>
      match endPrefix startPrefix with
      | some last => decide (e.1 < last)
      | none => true
    let keyOf : Bytes × Bytes → Except String (Option Bytes) := fun e =>
      match Key.deserialize self.maxDatastoreKeyLength false e.1 with
      | some (key, _) =>
        match key.keyType with
        | .datastore datastoreVec => .ok (some datastoreVec)
        | _ => .ok none
      | none => .error "could not deserialize datastore key from state db"
    (scanned.mapM keyOf).map fun keys => some keys.reduceOption

/-- The check of a stored value by the type of its key, in
`is_key_value_valid`. -/
def isValueValid (self : LedgerDB H) : KeyType → Bytes → Bool
  | .version, value => parsesFully (u64VarIntDeserialize fun _ => true) value
  | .balance, value => parsesFully amountDeserialize value
  | .bytecode, value => parsesFully (bytecodeDeserialize self.maxDatastoreValueLength) value
  | .datastore _, value => !decide (value.length ≥ self.maxDatastoreValueLength.toNat)

/-- `LedgerDB::is_key_value_valid`, the check of a pair received at bootstrap. -/
def isKeyValueValid (self : LedgerDB H) (serializedKey serializedValue : Bytes) : Bool :=
  if !ledgerPrefix.isPrefixOf serializedKey then false
  else
    match Key.deserialize self.maxDatastoreKeyLength false serializedKey with
    | some (key, rest) => if !rest.isEmpty then false else self.isValueValid key.keyType serializedValue
    | none => false

end LedgerDB

/-! ### What the writers write

The writers are specified key by key: `WritesAt addr w batch b` says that `b`
is `batch` with the write `w kt` at the sub-entry `kt` of `addr` (`some v`
stores `v`, `some none` being a delete; `none` writes nothing) and no other
ledger key touched.  Each writer is one such write, composed with `trans`. -/

/-- `b` is `batch` with the writes `w` to the sub-entries of `addr`. -/
def WritesAt (addr : Address) (w : KeyType → Option (Option Bytes)) (batch b : DBBatch) : Prop :=
  ∀ key : Key, b.get? (key.serialize false) =
    if key.address = addr then (w key.keyType).or (batch.get? (key.serialize false))
    else batch.get? (key.serialize false)

namespace WritesAt

variable {addr : Address} {w w₁ w₂ : KeyType → Option (Option Bytes)} {batch b₁ b₂ : DBBatch}

theorem refl (addr : Address) (batch : DBBatch) : WritesAt addr (fun _ => none) batch batch := by
  intro key
  split_ifs <;> rfl

/-- Two writes in turn: the later one wins. -/
theorem trans (h₁ : WritesAt addr w₁ batch b₁) (h₂ : WritesAt addr w₂ b₁ b₂) :
    WritesAt addr (fun kt => (w₂ kt).or (w₁ kt)) batch b₂ := by
  intro key
  rw [h₂ key, h₁ key]
  split_ifs
  · exact Option.or_assoc.symm
  · rfl

theorem of_eq (h : WritesAt addr w₁ batch b₁) (hw : ∀ kt, w₁ kt = w₂ kt) :
    WritesAt addr w₂ batch b₁ := by
  intro key
  rw [h key, hw]

end WritesAt

theorem writesAt_insert (batch : DBBatch) (addr : Address) (ty : KeyType) (v : Option Bytes) :
    WritesAt addr (fun kt => if kt = ty then some v else none) batch
      (batch.insert (Key.serialize false ⟨ty, addr⟩) v) := by
  rintro ⟨kt, a⟩
  by_cases ha : a = addr <;> by_cases hk : kt = ty <;> simp [ha, hk]

/-- The datastore loops: each entry of `u` written under its datastore key. -/
theorem writesAt_writeAll {β : Type} (batch : DBBatch) (addr : Address) (u : SortedMap Bytes β)
    (g : β → Option Bytes) :
    WritesAt addr (fun kt => match kt with
        | .datastore key => (u.get? key).map g
        | _ => none) batch
      (batch.writeAll (u.entries.map fun e => (Key.serialize false ⟨.datastore e.1, addr⟩,
        some (g e.2)))) := by
  have hinj : Function.Injective fun key : Bytes => Key.serialize false ⟨.datastore key, addr⟩ := by
    intro k₁ k₂ h
    simpa using h
  rintro ⟨kt, a⟩
  by_cases hmem : a = addr ∧ ∃ d, kt = .datastore d
  · obtain ⟨rfl, d, rfl⟩ := hmem
    have hread := SortedMap.get?_writeAll_mapKeys batch u hinj (fun x => some (g x)) d
    rw [hread, if_pos rfl]
    dsimp only
    rw [← Option.getD_map_some, Option.map_map]
    rfl
  · -- a key outside the datastore of `addr` is not written
    have hout : ∀ key : Bytes, Key.serialize false ⟨.datastore key, addr⟩ ≠
        Key.serialize false ⟨kt, a⟩ := by
      intro key hkey
      rw [Key.serialize_inj, Key.mk.injEq] at hkey
      exact hmem ⟨hkey.2.symm, key, hkey.1.symm⟩
    rw [SortedMap.get?_writeAll_mapKeys_of_forall_ne batch u (fun x => some (g x)) hout]
    split_ifs with ha
    · subst ha
      cases kt with
      | datastore d => exact absurd ⟨rfl, d, rfl⟩ hmem
      | _ => rfl
    · rfl

/-- The scan of `delete_entry`: a delete of every datastore key of `addr`
stored in `cf`. -/
theorem writesAt_deleteScan (cf : SortedMap Bytes Bytes) (batch : DBBatch) (addr : Address) :
    WritesAt addr (fun kt => match kt with
        | .datastore key => (cf.get? (Key.serialize false ⟨.datastore key, addr⟩)).map fun _ => none
        | _ => none) batch
      (((cf.iterFrom (datastorePrefixFromAddress addr [])).takeWhile
        fun e => decide (e.1 ≤ keyPrefix addr ++ [4])).foldl (fun batch e => deleteKey batch e.1)
          batch) := by
  unfold deleteKey
  rw [SortedMap.foldl_insert_eq_writeAll]
  rintro ⟨kt, a⟩
  rw [SortedMap.get?_writeAll_scan]
  have hrange := serialize_mem_datastoreRange addr ⟨kt, a⟩
  by_cases ha : a = addr
  · subst ha
    cases kt with
    | datastore d =>
      rw [if_pos (hrange.mpr ⟨rfl, d, rfl⟩), if_pos rfl]
      dsimp only
      cases cf.get? (Key.serialize false ⟨.datastore d, a⟩) <;> rfl
    | _ =>
      rw [if_neg (fun h => by obtain ⟨-, d, hd⟩ := hrange.mp h; cases hd), if_pos rfl]
      rfl
  · rw [if_neg (fun h => ha (hrange.mp h).1), if_neg ha]
    rfl

/-- The value of each sub-entry of an entry, as `put_entry` serializes it. -/
def LedgerEntry.subEntry (entry : LedgerEntry) : KeyType → Option Bytes
  | .version => some (u64VarIntSerialize 0)
  | .balance => some (amountSerialize entry.balance)
  | .bytecode => some (bytecodeSerialize entry.bytecode)
  | .datastore key => entry.datastore.get? key

/-- The write of a `SetOrKeep` field to its sub-entry: a put of the
serialized value for a `Set`, nothing for a `Keep`. -/
def fieldWrite {α : Type} (serialize : α → Bytes) : SetOrKeep α → Option (Option Bytes)
  | .set value => some (some (serialize value))
  | .keep => none

/-- The write of an update to each sub-entry, as `update_entry` makes it. -/
def LedgerEntryUpdate.subEntryWrite (update : LedgerEntryUpdate) : KeyType → Option (Option Bytes)
  | .version => none
  | .balance => fieldWrite amountSerialize update.balance
  | .bytecode => fieldWrite bytecodeSerialize update.bytecode
  | .datastore key => (update.datastore.get? key).map (SetOrDelete.applyToOpt none)

/-- The write of the change of an address to each of its sub-entries; a
`Delete` removes the datastore keys that `stored` holds. -/
def changeWrite (stored : KeyType → Option Bytes) :
    SetUpdateOrDelete LedgerEntry LedgerEntryUpdate → KeyType → Option (Option Bytes)
  | .set entry, kt => (entry.subEntry kt).map some
  | .update update, kt => update.subEntryWrite kt
  | .delete, .datastore key => (stored (.datastore key)).map fun _ => none
  | .delete, _ => some none

/-- What a commit leaves in each sub-entry of an address whose change is
`change`, `stored` being the sub-entries before: a `Set` writes every
sub-entry of the new entry and leaves the other datastore keys as they were,
an `Update` writes what it sets, a `Delete` removes everything. -/
def diskApply (stored : KeyType → Option Bytes) :
    SetUpdateOrDelete LedgerEntry LedgerEntryUpdate → KeyType → Option Bytes
  | .set entry, kt => (entry.subEntry kt).or (stored kt)
  | .update update, kt => (update.subEntryWrite kt).getD (stored kt)
  | .delete, _ => none

theorem changeWrite_getD (stored : KeyType → Option Bytes)
    (change : SetUpdateOrDelete LedgerEntry LedgerEntryUpdate) (kt : KeyType) :
    (changeWrite stored change kt).getD (stored kt) = diskApply stored change kt := by
  cases change with
  | set entry => exact Option.getD_map_some _ _
  | update update => rfl
  | delete =>
    cases kt with
    | datastore key =>
      show ((stored (.datastore key)).map fun _ => none).getD (stored (.datastore key)) = none
      cases stored (.datastore key) <;> rfl
    | _ => rfl

namespace LedgerDB

variable {H : Type}

/-- The write of one field by `update_entry`. -/
theorem writesAt_putFieldUpdate {α : Type} (addr : Address) (ty : KeyType)
    (serialize : α → Bytes) (field : SetOrKeep α) (batch : DBBatch) :
    WritesAt addr (fun kt => if kt = ty then fieldWrite serialize field else none)
      batch (putFieldUpdate addr ty serialize field batch) := by
  cases field with
  | set value => exact writesAt_insert batch addr ty (some (serialize value))
  | keep =>
    refine (WritesAt.refl addr batch).of_eq fun kt => ?_
    split_ifs <;> rfl

theorem putEntry_writesAt {self : LedgerDB H} {addr : Address} {entry : LedgerEntry}
    {batch b : DBBatch} (h : self.putEntry addr entry batch = .ok b) :
    WritesAt addr (changeWrite (self.getSubEntry addr) (.set entry)) batch b := by
  rw [putEntry] at h
  -- a datastore loop that does not panic is the loop of its puts
  have hloop := List.foldlM_eq_ok (g := fun batch (e : Bytes × Bytes) =>
      batch.insert (Key.serialize false ⟨.datastore e.1, addr⟩) (some e.2)) ?_ h
  · rw [hloop, SortedMap.foldl_insert_eq_writeAll]
    have hfields := ((writesAt_insert batch addr .version (some (u64VarIntSerialize 0))).trans
      (writesAt_insert _ addr .balance (some (amountSerialize entry.balance)))).trans
      (writesAt_insert _ addr .bytecode (some (bytecodeSerialize entry.bytecode)))
    refine (hfields.trans (writesAt_writeAll _ addr entry.datastore some)).of_eq fun kt => ?_
    cases kt with
    | datastore key => exact Option.or_none
    | _ => rfl
  · intro acc e r hr
    -- the panicking branches cannot return `ok`
    split_ifs at hr
    cases hr
    rfl

/-- `put_entry` does not panic on an entry whose datastore values and keys
are within the bounds. -/
theorem putEntry_isOk (self : LedgerDB H) (addr : Address) {entry : LedgerEntry} (batch : DBBatch)
    (hbounds : ∀ e ∈ entry.datastore.entries, e.2.length ≤ self.maxDatastoreValueLength.toNat ∧
      e.1.length ≤ self.maxDatastoreKeyLength.toNat) :
    ∃ b, self.putEntry addr entry batch = .ok b := by
  refine ⟨_, List.foldlM_eq_ok_of_forall (g := fun batch (e : Bytes × Bytes) =>
    putOrUpdateEntryValue batch (Key.serialize false ⟨.datastore e.1, addr⟩) e.2) ?_ _⟩
  intro acc e he
  obtain ⟨hvalue, hkey⟩ := hbounds e he
  rw [if_neg (by omega), if_neg (by omega)]

theorem updateEntry_writesAt {self : LedgerDB H} {addr : Address} {update : LedgerEntryUpdate}
    {batch b : DBBatch} (h : self.updateEntry addr update batch = .ok b) :
    WritesAt addr (changeWrite (self.getSubEntry addr) (.update update)) batch b := by
  rw [updateEntry] at h
  -- a datastore loop that does not panic writes `Set` as a put and `Delete` as a delete
  have hloop := List.foldlM_eq_ok (g := fun batch (e : Bytes × SetOrDelete Bytes) =>
      batch.insert (Key.serialize false ⟨.datastore e.1, addr⟩) (SetOrDelete.applyToOpt none e.2))
    ?_ h
  · rw [hloop, SortedMap.foldl_insert_eq_writeAll]
    have hfields := (writesAt_putFieldUpdate addr .balance amountSerialize update.balance batch).trans
      (writesAt_putFieldUpdate addr .bytecode bytecodeSerialize update.bytecode _)
    refine (hfields.trans (writesAt_writeAll _ addr update.datastore
      (SetOrDelete.applyToOpt none))).of_eq fun kt => ?_
    cases kt with
    | datastore key => exact Option.or_none
    | bytecode =>
      show (fieldWrite bytecodeSerialize update.bytecode).or none = _
      exact Option.or_none
    | _ => rfl
  · intro acc e r hr
    obtain ⟨key, value⟩ := e
    dsimp only at hr
    split_ifs at hr
    cases value with
    | set entry =>
      dsimp only at hr
      split_ifs at hr
      cases hr
      rfl
    | delete =>
      cases hr
      rfl

theorem deleteEntry_writesAt (self : LedgerDB H) (addr : Address) (batch : DBBatch) :
    WritesAt addr (changeWrite (self.getSubEntry addr) .delete) batch
      (self.deleteEntry addr batch) := by
  rw [deleteEntry, endPrefix_datastorePrefix]
  dsimp only
  have hfields := ((writesAt_insert batch addr .version none).trans
    (writesAt_insert _ addr .balance none)).trans (writesAt_insert _ addr .bytecode none)
  refine (hfields.trans (writesAt_deleteScan self.db.stateCf _ addr)).of_eq fun kt => ?_
  cases kt with
  | datastore key => exact Option.or_none
  | _ => rfl

theorem writeChange_writesAt {self : LedgerDB H} {addr : Address}
    {change : SetUpdateOrDelete LedgerEntry LedgerEntryUpdate} {batch b : DBBatch}
    (h : self.writeChange addr change batch = .ok b) :
    WritesAt addr (changeWrite (self.getSubEntry addr) change) batch b := by
  cases change with
  | set entry => exact putEntry_writesAt h
  | update update => exact updateEntry_writesAt h
  | delete =>
    simp only [writeChange, Except.ok.injEq] at h
    subst h
    exact deleteEntry_writesAt self addr batch

/-- **The batch of a change set**: the key of each sub-entry holds the write
of its address's change, if any, over what the batch held before. -/
theorem applyChangesToBatch_get? {self : LedgerDB H} {changes : LedgerChanges}
    {batch b : DBBatch} (h : self.applyChangesToBatch changes batch = .ok b) (key : Key) :
    b.get? (key.serialize false) =
      match changes.get? key.address with
      | some change =>
        (changeWrite (self.getSubEntry key.address) change key.keyType).or
          (batch.get? (key.serialize false))
      | none => batch.get? (key.serialize false) := by
  obtain ⟨l, hl⟩ := changes
  obtain ⟨kt, a⟩ := key
  unfold applyChangesToBatch at h
  -- induction on the entries, which visit each address once
  induction l generalizing batch with
  | nil =>
    cases h
    rfl
  | cons e rest ih =>
    obtain ⟨addr, change⟩ := e
    obtain ⟨hhead, hrest⟩ := keysSorted_cons.mp hl
    rw [List.foldlM_cons] at h
    cases hstep : self.writeChange addr change batch with
    | error err =>
      rw [hstep] at h
      cases h
    | ok b₁ =>
      rw [hstep] at h
      rw [ih hrest h, writeChange_writesAt hstep ⟨kt, a⟩]
      dsimp only
      rw [SortedMap.get?_cons]
      by_cases ha : addr = a
      · -- the change of `a` is this one: the later entries have greater addresses
        subst ha
        rw [SortedMap.get?_of_forall_lt hrest hhead, if_pos rfl, if_pos rfl]
      · rw [if_neg ha, if_neg (Ne.symm ha)]

section Commit

variable [XorOp H] [Zero H]

/-- A commit that succeeds wrote the batch of its changes, and changed
nothing but the database. -/
theorem commitChanges_eq_some {hashTuple : Bytes → Bytes → H} {self next : LedgerDB H}
    {changes : LedgerChanges} {slot : Slot}
    (h : self.commitChanges hashTuple changes slot = some next) :
    ∃ batch db, self.applyChangesToBatch changes ∅ = .ok batch ∧
      self.db.writeChanges hashTuple batch ∅ (some slot) false = .ok db ∧
      next = { self with db := db } := by
  unfold commitChanges at h
  split at h
  · next batch hbatch =>
    split at h
    · next db hdb =>
      cases h
      exact ⟨batch, db, hbatch, hdb, rfl⟩
    · cases h
  · cases h

/-- **What a commit does to each sub-entry**: `diskApply` of the address's
change, or nothing for an address without a change. -/
theorem getSubEntry_commitChanges {hashTuple : Bytes → Bytes → H} {self next : LedgerDB H}
    {changes : LedgerChanges} {slot : Slot}
    (h : self.commitChanges hashTuple changes slot = some next) (addr : Address) (kt : KeyType) :
    next.getSubEntry addr kt =
      match changes.get? addr with
      | some change => diskApply (self.getSubEntry addr) change kt
      | none => self.getSubEntry addr kt := by
  obtain ⟨batch, db, hbatch, hdb, rfl⟩ := commitChanges_eq_some h
  have hcf := (RawMassaDB.writeChanges_eq_ok hdb).1
  show db.stateCf.get? (Key.serialize false ⟨kt, addr⟩) = _
  rw [hcf, SortedMap.get?_writeAll_entries, applyChangesToBatch_get? hbatch ⟨kt, addr⟩]
  dsimp only
  cases changes.get? addr with
  | some change =>
    dsimp only
    rw [SortedMap.get?_empty, Option.or_none]
    exact changeWrite_getD _ _ _
  | none => rfl

/-- A commit moves the database to the slot it commits. -/
theorem changeId_commitChanges {hashTuple : Bytes → Bytes → H} {self next : LedgerDB H}
    {changes : LedgerChanges} {slot : Slot}
    (h : self.commitChanges hashTuple changes slot = some next) : next.db.changeId = slot := by
  obtain ⟨batch, db, -, hdb, rfl⟩ := commitChanges_eq_some h
  exact (RawMassaDB.writeChanges_eq_ok hdb).2.2.1

/-- A commit succeeds when no writer panics and the slot does not go back. -/
theorem commitChanges_isSome {hashTuple : Bytes → Bytes → H} {self : LedgerDB H}
    {changes : LedgerChanges} {slot : Slot} {batch : DBBatch}
    (hbatch : self.applyChangesToBatch changes ∅ = .ok batch) (hslot : self.db.changeId ≤ slot) :
    ∃ next, self.commitChanges hashTuple changes slot = some next := by
  have hmono : ∀ c ∈ some slot, self.db.changeId ≤ c := fun c hc => by
    rw [Option.mem_def, Option.some_inj] at hc
    exact hc ▸ hslot
  have hdb : ∃ db, self.db.writeChanges hashTuple batch ∅ (some slot) false = .ok db :=
    RawMassaDB.writeChanges_isOk hmono
  obtain ⟨db, hdb⟩ := hdb
  refine ⟨{ self with db := db }, ?_⟩
  rw [commitChanges, hbatch]
  dsimp only
  rw [show self.db.writeBatch hashTuple batch ∅ (some slot) = .ok db from hdb]

end Commit

end LedgerDB

end Massa
