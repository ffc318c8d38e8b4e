import Massa.Ledger.Changes
import Massa.Lib.Parser
import Massa.Models.Serialization
import Mathlib

/-!
# Operations and their binary format (`massa-models/src/operation.rs`, `datastore.rs`)

An operation is a fee, an expiry period and one of five operation types.
`OperationSerializer` writes the fee, the expiry period and then the type:
its id as a `u32` varint and its fields in a fixed order.  The deserializer is
built with limits on the variable-length fields (the bytecode of an
`ExecuteSC`, the function name and the parameter of a `CallSC`, and the
number, key length and value length of the entries of a datastore), and a
datastore is read as a counted list of entries collected into a map.

* `datastoreDeserialize_serialize` — a datastore within the limits is read
  back, the map rebuilt from its entries;
* `OperationTypeDeserializer.deserialize_serialize` — every operation type
  whose fields fit the limits serializes and is read back, for each of the
  five variants;
* `operation_roundTrip` — the same for a whole operation: the deserializer
  consumes exactly the serialized bytes, whatever follows them.
-/

namespace Massa

/-- `OperationType`. -/
inductive OperationType where
  | transaction (recipientAddress : Address) (amount : Amount)
  | rollBuy (rollCount : UInt64)
  | rollSell (rollCount : UInt64)
  | executeSC (data : Bytes) (maxGas : UInt64) (maxCoins : Amount) (datastore : Datastore)
  | callSC (targetAddr : Address) (targetFunc : String) (param : Bytes) (maxGas : UInt64)
      (coins : Amount)
  deriving DecidableEq

/-- `Operation`: the content of an operation, without its signature. -/
structure Operation where
  fee : Amount
  expirePeriod : UInt64
  op : OperationType
  deriving DecidableEq

/-- `OperationTypeId`: the tag written before the fields of a type. -/
inductive OperationTypeId where
  | transaction
  | rollBuy
  | rollSell
  | executeSC
  | callSC
  deriving DecidableEq, Repr

namespace OperationTypeId

/-- `u32::from(id)`, the `#[repr(u32)]` discriminant. -/
def toU32 : OperationTypeId → UInt32
  | transaction => 0
  | rollBuy => 1
  | rollSell => 2
  | executeSC => 3
  | callSC => 4

/-- `OperationTypeId::try_from(u32)`. -/
def tryFrom : ℕ → Option OperationTypeId
  | 0 => some transaction
  | 1 => some rollBuy
  | 2 => some rollSell
  | 3 => some executeSC
  | 4 => some callSC
  | _ => none

theorem tryFrom_toU32 (id : OperationTypeId) : tryFrom id.toU32.toNat = some id := by
  cases id <;> rfl

end OperationTypeId

/-! ### Datastores -/

/-- A datastore entry: its key, then its value, each as a `VecU8`. -/
def datastoreEntrySerialize (entry : Bytes × Bytes) : Bytes :=
  vecU8Serialize entry.1 ++ vecU8Serialize entry.2

/-- `DatastoreSerializer`: the entry count as a `u64` varint, then the
entries in key order. -/
def datastoreSerialize (value : Datastore) : Bytes :=
  Varint.encode value.size ++ value.entries.flatMap datastoreEntrySerialize

/-- The `tuple((key, value))` parser of `DatastoreDeserializer`. -/
def datastoreEntryDeserialize (maxDatastoreKeyLength : UInt8) (maxDatastoreValueLength : UInt64)
    (buffer : Bytes) : Option ((Bytes × Bytes) × Bytes) := do
  let (key, rest) ← vecU8Deserialize 0 maxDatastoreKeyLength.toNat buffer
  let (value, rest) ← vecU8Deserialize 0 maxDatastoreValueLength.toNat rest
  pure ((key, value), rest)

/-- `DatastoreDeserializer::new(max_datastore_entry_count, max_datastore_key_length,
max_datastore_value_length)`: the counted entries, collected into a map (a
later entry of a key replaces an earlier one). -/
def datastoreDeserialize (maxDatastoreEntryCount : UInt64) (maxDatastoreKeyLength : UInt8)
    (maxDatastoreValueLength : UInt64) (buffer : Bytes) : Option (Datastore × Bytes) := do
  let (elements, rest) ← ListParser.lengthCount
    (u64VarIntDeserialize fun n => 0 ≤ n ∧ n ≤ maxDatastoreEntryCount.toNat)
    (datastoreEntryDeserialize maxDatastoreKeyLength maxDatastoreValueLength) buffer
  pure (elements.foldl (fun m e => m.insert e.1 e.2) ∅, rest)

/-- An entry whose key and value fit the limits is read back. -/
theorem datastoreEntry_readsBack (maxDatastoreKeyLength : UInt8)
    (maxDatastoreValueLength : UInt64) :
    ListParser.ReadsBack datastoreEntrySerialize
      (datastoreEntryDeserialize maxDatastoreKeyLength maxDatastoreValueLength)
      fun e => e.1.length ≤ maxDatastoreKeyLength.toNat ∧
        e.2.length ≤ maxDatastoreValueLength.toNat := by
  rintro ⟨key, value⟩ ⟨hkey, hvalue⟩ rest
  have hkey64 : key.length < 2 ^ 64 :=
    lt_of_le_of_lt hkey (lt_trans maxDatastoreKeyLength.toNat_lt (by norm_num))
  have hvalue64 : value.length < 2 ^ 64 := lt_of_le_of_lt hvalue maxDatastoreValueLength.toNat_lt
  rw [datastoreEntrySerialize, List.append_assoc, datastoreEntryDeserialize,
    vecU8Deserialize_serialize hkey64 (Nat.zero_le _) hkey]
  simp only [Option.bind_eq_bind, Option.bind_some,
    vecU8Deserialize_serialize hvalue64 (Nat.zero_le _) hvalue]
  rfl

/-- **Datastores.**  A datastore of at most `max_datastore_entry_count`
entries, with keys and values within their limits, is read back. -/
theorem datastoreDeserialize_serialize {maxDatastoreEntryCount : UInt64}
    {maxDatastoreKeyLength : UInt8} {maxDatastoreValueLength : UInt64} {value : Datastore}
    (hcount : value.size ≤ maxDatastoreEntryCount.toNat)
    (hentries : ∀ e ∈ value.entries, e.1.length ≤ maxDatastoreKeyLength.toNat ∧
      e.2.length ≤ maxDatastoreValueLength.toNat) (rest : Bytes) :
    datastoreDeserialize maxDatastoreEntryCount maxDatastoreKeyLength maxDatastoreValueLength
      (datastoreSerialize value ++ rest) = some (value, rest) := by
  -- the count is read back as the number of entries
  have hcountRead : ListParser.ReadsBack Varint.encode
      (u64VarIntDeserialize fun n => 0 ≤ n ∧ n ≤ maxDatastoreEntryCount.toNat)
      (· = value.entries.length) := by
    rintro n rfl rest'
    exact u64VarIntDeserialize_encode (lt_of_le_of_lt hcount maxDatastoreEntryCount.toNat_lt)
      (by simpa using hcount) rest'
  rw [datastoreDeserialize, datastoreSerialize, SortedMap.size,
    (datastoreEntry_readsBack _ _).lengthCount hcountRead hentries rest]
  simp only [Option.bind_eq_bind, Option.bind_some, SortedMap.foldl_insert_entries]
  rfl

/-! ### Operation types -/

/-- `OperationTypeSerializer`: the id as a `u32` varint, then the fields.  The
function name of a call is the only field that can fail to serialize (more
than `u16::MAX` bytes). -/
def operationTypeSerialize : OperationType → Option Bytes
  | .transaction recipientAddress amount =>
    some (u32VarIntSerialize OperationTypeId.transaction.toU32 ++
      addressSerialize recipientAddress ++ amountSerialize amount)
  | .rollBuy rollCount =>
    some (u32VarIntSerialize OperationTypeId.rollBuy.toU32 ++ u64VarIntSerialize rollCount)
  | .rollSell rollCount =>
    some (u32VarIntSerialize OperationTypeId.rollSell.toU32 ++ u64VarIntSerialize rollCount)
  | .executeSC data maxGas maxCoins datastore =>
    some (u32VarIntSerialize OperationTypeId.executeSC.toU32 ++ u64VarIntSerialize maxGas ++
      amountSerialize maxCoins ++ vecU8Serialize data ++ datastoreSerialize datastore)
  | .callSC targetAddr targetFunc param maxGas coins =>
    (stringSerialize targetFunc).map fun name =>
      u32VarIntSerialize OperationTypeId.callSC.toU32 ++ u64VarIntSerialize maxGas ++
        amountSerialize coins ++ addressSerialize targetAddr ++ name ++ vecU8Serialize param

/-- `OperationTypeDeserializer`, given by the limits it is built with
(`OperationTypeDeserializer::new`). -/
structure OperationTypeDeserializer where
  maxDatastoreValueLength : UInt64
  maxFunctionNameLength : UInt16
  maxParametersSize : UInt32
  maxOpDatastoreEntryCount : UInt64
  maxOpDatastoreKeyLength : UInt8
  maxOpDatastoreValueLength : UInt64

namespace OperationTypeDeserializer

/-- The fields of the variant `id`, the `match id` of
`OperationTypeDeserializer::deserialize`. -/
def deserializeVariant (self : OperationTypeDeserializer) (id : OperationTypeId)
    (input : Bytes) : Option (OperationType × Bytes) :=
  match id with
  | .transaction => do
    let (recipientAddress, input) ← addressDeserialize input
    let (amount, input) ← amountDeserialize input
    pure (.transaction recipientAddress amount, input)
  | .rollBuy => do
    let (rollCount, input) ← u64VarIntDeserialize (fun _ => true) input
    pure (.rollBuy rollCount.toUInt64, input)
  | .rollSell => do
    let (rollCount, input) ← u64VarIntDeserialize (fun _ => true) input
    pure (.rollSell rollCount.toUInt64, input)
  | .executeSC => do
    let (maxGas, input) ← u64VarIntDeserialize (fun _ => true) input
    let (maxCoins, input) ← amountDeserialize input
    let (data, input) ← vecU8Deserialize 0 self.maxDatastoreValueLength.toNat input
    let (datastore, input) ← datastoreDeserialize self.maxOpDatastoreEntryCount
      self.maxOpDatastoreKeyLength self.maxOpDatastoreValueLength input
    pure (.executeSC data maxGas.toUInt64 maxCoins datastore, input)
  | .callSC => do
    let (maxGas, input) ← u64VarIntDeserialize (fun _ => true) input
    let (coins, input) ← amountDeserialize input
    let (targetAddr, input) ← addressDeserialize input
    let (targetFunc, input) ← stringDeserialize self.maxFunctionNameLength.toNat input
    let (param, input) ← vecU8Deserialize 0 self.maxParametersSize.toNat input
    pure (.callSC targetAddr targetFunc param maxGas.toUInt64 coins, input)

/-- `OperationTypeDeserializer::deserialize`: the id, which must be one of the
five, then the fields of its variant. -/
def deserialize (self : OperationTypeDeserializer) (buffer : Bytes) :
    Option (OperationType × Bytes) := do
  let (id, input) ← u32VarIntDeserialize (fun _ => true) buffer
  let id ← OperationTypeId.tryFrom id
  self.deserializeVariant id input

/-- The variable-length fields of an operation type are within the limits of
the deserializer. -/
def Fits (self : OperationTypeDeserializer) : OperationType → Prop
  | .executeSC data _ _ datastore =>
    data.length ≤ self.maxDatastoreValueLength.toNat ∧
      datastore.size ≤ self.maxOpDatastoreEntryCount.toNat ∧
      ∀ e ∈ datastore.entries, e.1.length ≤ self.maxOpDatastoreKeyLength.toNat ∧
        e.2.length ≤ self.maxOpDatastoreValueLength.toNat
  | .callSC _ targetFunc param _ _ =>
    targetFunc.utf8ByteSize ≤ self.maxFunctionNameLength.toNat ∧
      param.length ≤ self.maxParametersSize.toNat
  | _ => True

instance instDecidableFits (self : OperationTypeDeserializer) : DecidablePred self.Fits
  | .transaction _ _ => inferInstanceAs (Decidable True)
  | .rollBuy _ => inferInstanceAs (Decidable True)
  | .rollSell _ => inferInstanceAs (Decidable True)
  | .executeSC data _ _ datastore =>
    inferInstanceAs (Decidable (data.length ≤ self.maxDatastoreValueLength.toNat ∧
      datastore.size ≤ self.maxOpDatastoreEntryCount.toNat ∧
      ∀ e ∈ datastore.entries, e.1.length ≤ self.maxOpDatastoreKeyLength.toNat ∧
        e.2.length ≤ self.maxOpDatastoreValueLength.toNat))
  | .callSC _ targetFunc param _ _ =>
    inferInstanceAs (Decidable (targetFunc.utf8ByteSize ≤ self.maxFunctionNameLength.toNat ∧
      param.length ≤ self.maxParametersSize.toNat))

/-- Reading the id written for a variant leads to the fields of that variant. -/
theorem deserialize_id (self : OperationTypeDeserializer) (id : OperationTypeId)
    (rest : Bytes) :
    self.deserialize (u32VarIntSerialize id.toU32 ++ rest) = self.deserializeVariant id rest := by
  rw [deserialize, u32VarIntSerialize, u32VarIntDeserialize_encode id.toU32.toNat_lt rfl]
  simp only [Option.bind_eq_bind, Option.bind_some, OperationTypeId.tryFrom_toU32]

/-- **Operation types.**  An operation type whose variable-length fields fit
the limits serializes, and the deserializer reads it back, whatever follows. -/
theorem deserialize_serialize (self : OperationTypeDeserializer) {value : OperationType}
    (hfits : self.Fits value) :
    ∃ bytes, operationTypeSerialize value = some bytes ∧
      ∀ rest, self.deserialize (bytes ++ rest) = some (value, rest) := by
  cases value with
  | transaction recipientAddress amount =>
    refine ⟨_, rfl, fun rest => ?_⟩
    rw [List.append_assoc, List.append_assoc, deserialize_id, deserializeVariant,
      addressDeserialize_serialize]
    simp only [Option.bind_eq_bind, Option.bind_some, amountDeserialize_serialize]
    rfl
  | rollBuy rollCount =>
    refine ⟨_, rfl, fun rest => ?_⟩
    rw [List.append_assoc, deserialize_id, deserializeVariant, u64VarIntDeserialize_serialize rfl]
    simp only [Option.bind_eq_bind, Option.bind_some, Nat.toUInt64_eq, UInt64.ofNat_toNat]
    rfl
  | rollSell rollCount =>
    refine ⟨_, rfl, fun rest => ?_⟩
    rw [List.append_assoc, deserialize_id, deserializeVariant, u64VarIntDeserialize_serialize rfl]
    simp only [Option.bind_eq_bind, Option.bind_some, Nat.toUInt64_eq, UInt64.ofNat_toNat]
    rfl
  | executeSC data maxGas maxCoins datastore =>
    obtain ⟨hdata, hcount, hentries⟩ := hfits
    have hdata64 : data.length < 2 ^ 64 := lt_of_le_of_lt hdata self.maxDatastoreValueLength.toNat_lt
    refine ⟨_, rfl, fun rest => ?_⟩
    simp only [List.append_assoc]
    rw [deserialize_id, deserializeVariant, u64VarIntDeserialize_serialize rfl]
    simp only [Option.bind_eq_bind, Option.bind_some, amountDeserialize_serialize,
      vecU8Deserialize_serialize hdata64 (Nat.zero_le _) hdata,
      datastoreDeserialize_serialize hcount hentries, Nat.toUInt64_eq, UInt64.ofNat_toNat]
    rfl
  | callSC targetAddr targetFunc param maxGas coins =>
    obtain ⟨hname, hparam⟩ := hfits
    have hparam64 : param.length < 2 ^ 64 :=
      lt_of_le_of_lt hparam (lt_trans self.maxParametersSize.toNat_lt (by norm_num))
    -- the function name fits its `u16` length, so it serializes
    obtain ⟨name, hser, hread⟩ := stringDeserialize_serialize hname
      (lt_of_le_of_lt hname self.maxFunctionNameLength.toNat_lt)
    refine ⟨_, by rw [operationTypeSerialize, hser]; rfl, fun rest => ?_⟩
    simp only [List.append_assoc]
    rw [deserialize_id, deserializeVariant, u64VarIntDeserialize_serialize rfl]
    simp only [Option.bind_eq_bind, Option.bind_some, amountDeserialize_serialize,
      addressDeserialize_serialize, hread, vecU8Deserialize_serialize hparam64 (Nat.zero_le _) hparam,
      Nat.toUInt64_eq, UInt64.ofNat_toNat]
    rfl

end OperationTypeDeserializer

/-! ### Operations -/

/-- `OperationSerializer`: the fee, the expiry period as a `u64` varint, then
the operation type. -/
def operationSerialize (value : Operation) : Option Bytes :=
  (operationTypeSerialize value.op).map fun op =>
    amountSerialize value.fee ++ u64VarIntSerialize value.expirePeriod ++ op

/-- `OperationDeserializer`: it holds an `OperationTypeDeserializer` built
with its limits. -/
structure OperationDeserializer where
  opTypeDeserializer : OperationTypeDeserializer

namespace OperationDeserializer

/-- `OperationDeserializer::new`. -/
def new (maxDatastoreValueLength : UInt64) (maxFunctionNameLength : UInt16)
    (maxParametersSize : UInt32) (maxOpDatastoreEntryCount : UInt64)
    (maxOpDatastoreKeyLength : UInt8) (maxOpDatastoreValueLength : UInt64) :
    OperationDeserializer :=
  ⟨⟨maxDatastoreValueLength, maxFunctionNameLength, maxParametersSize, maxOpDatastoreEntryCount,
    maxOpDatastoreKeyLength, maxOpDatastoreValueLength⟩⟩

/-- `OperationDeserializer::deserialize`: the fee, the expiry period, then the
operation type. -/
def deserialize (self : OperationDeserializer) (buffer : Bytes) : Option (Operation × Bytes) := do
  let (fee, input) ← amountDeserialize buffer
  let (expirePeriod, input) ← u64VarIntDeserialize (fun _ => true) input
  let (op, input) ← self.opTypeDeserializer.deserialize input
  pure ({ fee, expirePeriod := expirePeriod.toUInt64, op }, input)

end OperationDeserializer

theorem operation_roundTrip (self : OperationDeserializer) (value : Operation)
    (hfits : self.opTypeDeserializer.Fits value.op) :
    ∃ bytes, operationSerialize value = some bytes ∧
      ∀ rest, self.deserialize (bytes ++ rest) = some (value, rest) := by
  obtain ⟨opBytes, hser, hread⟩ := self.opTypeDeserializer.deserialize_serialize hfits
  refine ⟨_, by rw [operationSerialize, hser]; rfl, fun rest => ?_⟩
  rw [List.append_assoc, List.append_assoc, OperationDeserializer.deserialize,
    amountDeserialize_serialize]
  simp only [Option.bind_eq_bind, Option.bind_some]
  rw [u64VarIntDeserialize_serialize rfl]
  simp only [Option.bind_some, hread, Nat.toUInt64_eq, UInt64.ofNat_toNat]
  rfl

theorem operation_roundTrip_executeSC :
    (OperationDeserializer.new 10000 10000 10000 10 255 10000).opTypeDeserializer.Fits
        (.executeSC [1, 2, 3] 100 ⟨5000000000000000⟩ (SortedMap.singleton [1, 2] [254, 255])) ∧
      ∃ bytes, operationSerialize ⟨⟨20⟩, 50,
          .executeSC [1, 2, 3] 100 ⟨5000000000000000⟩ (SortedMap.singleton [1, 2] [254, 255])⟩ =
          some bytes ∧
        ∀ rest, (OperationDeserializer.new 10000 10000 10000 10 255 10000).deserialize
          (bytes ++ rest) = some (⟨⟨20⟩, 50,
            .executeSC [1, 2, 3] 100 ⟨5000000000000000⟩ (SortedMap.singleton [1, 2] [254, 255])⟩,
            rest) :=
  ⟨by decide, operation_roundTrip _ _ (by decide)⟩

end Massa
