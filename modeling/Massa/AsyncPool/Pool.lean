import Massa.AsyncPool.Changes
import Massa.Db.MassaDb
import Massa.Ledger.FinalLedger
import Massa.Lib.Lists
import Mathlib.Data.Rat.Lemmas

/-!
# The asynchronous pool on disk (`massa-async-pool/src/pool.rs`)

The final pool stores each message as thirteen sub-entries of the state
column, one per field, under the key `ASYNC_POOL_PREFIX ++ id ++ [ident]`.
`put_entry` writes them with the serializers of `AsyncMessageSerializer`;
`is_key_value_valid` is the check a bootstrapping node applies to every pair
it receives: it parses the key back to an id and an ident, and the value
with the deserializer of that field.

The two agree on every field but one.  The function name is written with a
`u16` varint length prefix, which takes two or three bytes from 128 bytes on,
while the validator reads the prefix as one raw byte and requires the value
to be one byte longer than it says.

Main results:
* `AsyncMessageId.deserialize_serialize`, `AsyncMessageTrigger.deserialize_serialize`
  — the key and field formats round-trip;
* `storable_computeId` — every id `compute_id` builds is one the disk format
  holds;
* `isKeyValueValid_putEntry` — for a message within the pool's limits,
  `put_entry` succeeds, and every pair it writes is accepted by the
  validator, except the function name of a message whose name has 128 bytes
  or more.
-/

namespace Massa

/-- `ASYNC_POOL_PREFIX`, the bytes of `"async_pool/"`. -/
def asyncPoolPrefix : Bytes := [97, 115, 121, 110, 99, 95, 112, 111, 111, 108, 47]

/-- `AsyncPoolConfig`. -/
structure AsyncPoolConfig where
  maxLength : UInt64
  maxFunctionLength : UInt16
  maxFunctionParamsLength : UInt64
  threadCount : UInt8
  maxKeyLength : UInt32
  deriving DecidableEq, Repr

/-! ### Message ids and triggers -/

namespace AsyncMessageId

/-- `AsyncMessageIdSerializer`: the numerator and the denominator of the fee
ratio, the emission slot and the emission index.  A `Ratio<u64>` is kept
reduced, as the rational number of the model is. -/
def serialize (value : AsyncMessageId) : Bytes :=
  Varint.encode value.feeRatio.num.toNat ++ Varint.encode value.feeRatio.den ++
    slotSerialize value.emissionSlot ++ u64VarIntSerialize value.emissionIndex

/-- `AsyncMessageIdDeserializer::new(thread_count)`: a denominator of at least
one, then `Ratio::new`. -/
def deserialize (threadCount : UInt8) (buffer : Bytes) : Option (AsyncMessageId × Bytes) := do
  let (numer, rest) ← u64VarIntDeserialize (fun _ => true) buffer
  let (denom, rest) ← u64VarIntDeserialize (fun d => 1 ≤ d) rest
  let (slot, rest) ← slotDeserialize threadCount rest
  let (index, rest) ← u64VarIntDeserialize (fun _ => true) rest
  pure (⟨(numer : ℚ) / denom, slot, index.toUInt64⟩, rest)

/-- An id that the serializer writes as a `Ratio<u64>` and that the
deserializer of a pool with `threadCount` threads reads back: a non-negative
fee ratio whose reduced numerator and denominator fit a `u64`, and a thread
of the pool. -/
structure Storable (threadCount : UInt8) (id : AsyncMessageId) : Prop where
  nonneg : 0 ≤ id.feeRatio
  num_lt : id.feeRatio.num.toNat < 2 ^ 64
  den_lt : id.feeRatio.den < 2 ^ 64
  thread_lt : id.emissionSlot.thread < threadCount

/-- The numerator and denominator the serializer writes denote the ratio. -/
theorem toNat_num_div_den {q : ℚ} (h : 0 ≤ q) : ((q.num.toNat : ℕ) : ℚ) / (q.den : ℚ) = q := by
  rw [← Int.cast_natCast, Int.toNat_of_nonneg (Rat.num_nonneg.mpr h)]
  exact Rat.num_div_den q

theorem deserialize_serialize {threadCount : UInt8} {id : AsyncMessageId}
    (h : id.Storable threadCount) (rest : Bytes) :
    deserialize threadCount (id.serialize ++ rest) = some (id, rest) := by
  have hnum : ∀ rest, u64VarIntDeserialize (fun _ => true) (Varint.encode id.feeRatio.num.toNat ++ rest) =
      some (id.feeRatio.num.toNat, rest) := u64VarIntDeserialize_encode h.num_lt rfl
  have hden : ∀ rest, u64VarIntDeserialize (fun d => 1 ≤ d) (Varint.encode id.feeRatio.den ++ rest) =
      some (id.feeRatio.den, rest) :=
    u64VarIntDeserialize_encode h.den_lt (decide_eq_true id.feeRatio.den_pos)
  have hindex : ∀ rest, u64VarIntDeserialize (fun _ => true) (u64VarIntSerialize id.emissionIndex ++ rest) =
      some (id.emissionIndex.toNat, rest) := u64VarIntDeserialize_serialize rfl
  simp only [deserialize, serialize, List.append_assoc, hnum, hden,
    slotDeserialize_serialize h.thread_lt, hindex, Option.bind_eq_bind, Option.bind_some,
    Option.pure_def]
  rw [toNat_num_div_den h.nonneg, Nat.toUInt64_eq, UInt64.ofNat_toNat]

end AsyncMessageId

/-- Every id that `compute_id` builds for a message on a thread of the pool
is one the disk format holds: the reduced numerator divides the fee and the
reduced denominator divides the gas. -/
theorem storable_computeId {threadCount : UInt8} (message : AsyncMessage)
    (hthread : message.emissionSlot.thread < threadCount) :
    message.computeId.Storable threadCount := by
  set denom : UInt64 := if message.maxGas > 0 then message.maxGas else 1 with hdenom
  have hpos : 0 < denom.toNat := by
    rw [hdenom]
    split_ifs with hgas
    · exact hgas
    · decide
  have hratio : message.computeId.feeRatio =
      Rat.divInt (message.fee.raw.toNat : ℤ) (denom.toNat : ℤ) := by
    rw [Rat.divInt_eq_div]
    push_cast
    rfl
  have hnum : message.computeId.feeRatio.num.natAbs ≤ message.fee.raw.toNat := by
    rcases Nat.eq_zero_or_pos message.fee.raw.toNat with hfee | hfee
    · rw [hratio, hfee]
      simp
    · rw [hratio]
      exact Nat.le_of_dvd hfee (Int.natAbs_dvd_natAbs.mpr (Rat.num_dvd _ (by omega)))
  have hden : message.computeId.feeRatio.den ≤ denom.toNat := by
    rw [hratio]
    exact Int.ofNat_le.mp (Int.le_of_dvd (by omega) (Rat.den_dvd _ _))
  refine ⟨?_, ?_, ?_, hthread⟩
  · exact div_nonneg (Nat.cast_nonneg _) (Nat.cast_nonneg _)
  · have := message.fee.raw.toNat_lt
    omega
  · have := denom.toNat_lt
    omega

namespace AsyncMessageTrigger

/-- `AsyncMessageTriggerSerializer`: the address, then the optional key. -/
def serialize (value : AsyncMessageTrigger) : Bytes :=
  addressSerialize value.address ++ optionSerialize vecU8Serialize value.datastoreKey

/-- `AsyncMessageTriggerDeserializer::new(max_key_length)`. -/
def deserialize (maxKeyLength : UInt32) (buffer : Bytes) : Option (AsyncMessageTrigger × Bytes) := do
  let (address, rest) ← addressDeserialize buffer
  let (datastoreKey, rest) ← optionDeserialize (vecU8Deserialize 0 maxKeyLength.toNat) rest
  pure (⟨address, datastoreKey⟩, rest)

theorem deserialize_serialize {maxKeyLength : UInt32} {value : AsyncMessageTrigger}
    (hkey : ∀ key ∈ value.datastoreKey, key.length ≤ maxKeyLength.toNat) (rest : Bytes) :
    deserialize maxKeyLength (value.serialize ++ rest) = some (value, rest) := by
  have hround : ∀ key ∈ value.datastoreKey, ∀ rest,
      vecU8Deserialize 0 maxKeyLength.toNat (vecU8Serialize key ++ rest) = some (key, rest) := by
    intro key hmem rest
    have hlen := hkey key hmem
    have h32 := maxKeyLength.toNat_lt
    exact vecU8Deserialize_serialize (by omega) (Nat.zero_le _) hlen rest
  simp only [deserialize, serialize, List.append_assoc, addressDeserialize_serialize,
    optionDeserialize_serialize hround, Option.bind_eq_bind, Option.bind_some, Option.pure_def]

end AsyncMessageTrigger

/-! ### Sub-entries of a message -/

/-- The fields of a message, each stored under its own key. -/
inductive MessageField
  | emissionSlot | emissionIndex | sender | destination | function | maxGas | fee | coins
  | validityStart | validityEnd | functionParams | trigger | canBeExecuted
  deriving DecidableEq, Repr

namespace MessageField

/-- `EMISSION_SLOT_IDENT` to `CAN_BE_EXECUTED_IDENT`. -/
def ident : MessageField → UInt8
  | emissionSlot => 0
  | emissionIndex => 1
  | sender => 2
  | destination => 3
  | function => 4
  | maxGas => 5
  | fee => 6
  | coins => 7
  | validityStart => 8
  | validityEnd => 9
  | functionParams => 10
  | trigger => 11
  | canBeExecuted => 12

/-- The field an ident byte names, as the `match rest[0]` of
`is_key_value_valid` reads it. -/
def ofIdent (ident : UInt8) : Option MessageField :=
  match ident.toNat with
  | 0 => some emissionSlot
  | 1 => some emissionIndex
  | 2 => some sender
  | 3 => some destination
  | 4 => some function
  | 5 => some maxGas
  | 6 => some fee
  | 7 => some coins
  | 8 => some validityStart
  | 9 => some validityEnd
  | 10 => some functionParams
  | 11 => some trigger
  | 12 => some canBeExecuted
  | _ => none

/-- The fields in the order `put_entry` writes them. -/
def all : List MessageField :=
  [emissionSlot, emissionIndex, sender, destination, function, maxGas, fee, coins,
    validityStart, validityEnd, functionParams, trigger, canBeExecuted]

theorem ofIdent_ident (field : MessageField) : ofIdent field.ident = some field := by
  cases field <;> rfl

theorem ident_injective : Function.Injective ident := fun f g h => by
  have hf := ofIdent_ident f
  rw [h, ofIdent_ident] at hf
  exact (Option.some_inj.mp hf).symm

theorem mem_all (field : MessageField) : field ∈ all := by
  cases field <;> decide

end MessageField

/-- The key of one field of a message, as `emission_slot_key!` to
`can_be_executed_key!` build it from the serialized id. -/
def messageFieldKey (serializedMessageId : Bytes) (field : MessageField) : Bytes :=
  asyncPoolPrefix ++ serializedMessageId ++ [field.ident]

theorem messageFieldKey_inj {serializedMessageId : Bytes} {f g : MessageField} :
    messageFieldKey serializedMessageId f = messageFieldKey serializedMessageId g ↔ f = g := by
  constructor
  · intro h
    have hident := List.append_cancel_left h
    exact MessageField.ident_injective (List.singleton_inj.mp hident)
  · rintro rfl
    rfl

namespace AsyncMessage

/-- The bytes `put_entry` writes for one field, by the serializers of
`AsyncMessageSerializer::new(true)`; only the function name can fail to
serialize. -/
def serializeField (message : AsyncMessage) : MessageField → Option Bytes
  | .emissionSlot => some (slotSerialize message.emissionSlot)
  | .emissionIndex => some (u64VarIntSerialize message.emissionIndex)
  | .sender => some (addressSerialize message.sender)
  | .destination => some (addressSerialize message.destination)
  | .function => stringSerialize message.function
  | .maxGas => some (u64VarIntSerialize message.maxGas)
  | .fee => some (amountSerialize message.fee)
  | .coins => some (amountSerialize message.coins)
  | .validityStart => some (slotSerialize message.validityStart)
  | .validityEnd => some (slotSerialize message.validityEnd)
  | .functionParams => some (vecU8Serialize message.functionParams)
  | .trigger => some (optionSerialize AsyncMessageTrigger.serialize message.trigger)
  | .canBeExecuted => some (boolSerialize message.canBeExecuted)

/-- A message within the limits of the pool's deserializers: its slots on the
pool's threads, a function name of at most `max_function_length` bytes,
parameters of at most `max_function_params_length` bytes and a trigger key
of at most `max_key_length` bytes. -/
structure WithinLimits (config : AsyncPoolConfig) (message : AsyncMessage) : Prop where
  emissionSlot_thread : message.emissionSlot.thread < config.threadCount
  validityStart_thread : message.validityStart.thread < config.threadCount
  validityEnd_thread : message.validityEnd.thread < config.threadCount
  function_length : message.function.utf8ByteSize ≤ config.maxFunctionLength.toNat
  functionParams_length : message.functionParams.length ≤ config.maxFunctionParamsLength.toNat
  trigger_key_length :
    ∀ trigger ∈ message.trigger, ∀ key ∈ trigger.datastoreKey, key.length ≤ config.maxKeyLength.toNat

theorem WithinLimits.function_lt {config : AsyncPoolConfig} {message : AsyncMessage}
    (h : message.WithinLimits config) : message.function.utf8ByteSize < 2 ^ 16 :=
  lt_of_le_of_lt h.function_length config.maxFunctionLength.toNat_lt

/-- Every field serializes when the function name has fewer than `2 ^ 16`
bytes. -/
theorem serializeField_isSome {message : AsyncMessage} (hfun : message.function.utf8ByteSize < 2 ^ 16)
    (field : MessageField) : (message.serializeField field).isSome := by
  cases field with
  | function => simpa [serializeField, stringSerialize] using hfun
  | _ => rfl

end AsyncMessage

namespace AsyncPool

/-- `MESSAGE_SER_ERROR`. -/
def messageSerError : String := "critical: message serialization failed"

/-- `AsyncPool::put_entry`: every field of the message under its key, in
order; a field that does not serialize panics. -/
def putEntry (messageId : AsyncMessageId) (message : AsyncMessage) (batch : DBBatch) :
    Except String DBBatch :=
  MessageField.all.foldlM (fun batch field =>
    match message.serializeField field with
    | some bytes => .ok (putOrUpdateEntryValue batch (messageFieldKey messageId.serialize field) bytes)
    | none => .error messageSerError) batch

/-- `put_entry` as a loop of inserts of the serialized fields. -/
def putFields (messageId : AsyncMessageId) (message : AsyncMessage) (batch : DBBatch) : DBBatch :=
  MessageField.all.foldl (fun batch field =>
    batch.insert (messageFieldKey messageId.serialize field) (some ((message.serializeField field).getD [])))
    batch

theorem putEntry_eq_ok {messageId : AsyncMessageId} {message : AsyncMessage}
    (hfun : message.function.utf8ByteSize < 2 ^ 16) (batch : DBBatch) :
    putEntry messageId message batch = .ok (putFields messageId message batch) := by
  refine List.foldlM_eq_ok_of_forall (fun b field _ => ?_) batch
  obtain ⟨bytes, hbytes⟩ := Option.isSome_iff_exists.mp (message.serializeField_isSome hfun field)
  simp only [hbytes, Option.getD_some]
  rfl

/-- A successful `put_entry` wrote every field under its key. -/
theorem get?_putEntry {messageId : AsyncMessageId} {message : AsyncMessage} {batch b : DBBatch}
    (h : putEntry messageId message batch = .ok b) {field : MessageField} {bytes : Bytes}
    (hbytes : message.serializeField field = some bytes) :
    b.get? (messageFieldKey messageId.serialize field) = some (some bytes) := by
  have hb : b = putFields messageId message batch := by
    refine List.foldlM_eq_ok (fun acc f r hr => ?_) h
    cases hf : message.serializeField f with
    | none =>
      rw [hf] at hr
      cases hr
    | some v =>
      rw [hf] at hr
      cases hr
      simp only [Option.getD_some]
      rfl
  rw [hb, putFields, SortedMap.get?_foldl_insert_of_mem _ _ _ (MessageField.mem_all field)
    (fun g _ hg => messageFieldKey_inj.mp hg) rfl, hbytes, Option.getD_some]

/-! ### The bootstrap validator -/

/-- The check of one field's value in `AsyncPool::is_key_value_valid`, with
the deserializers of `AsyncMessageDeserializer::new(thread_count,
max_function_length, max_function_params_length, max_key_length, true)`. -/
def isFieldValueValid (config : AsyncPoolConfig) (field : MessageField) (value : Bytes) : Bool :=
  match field with
  | .emissionSlot => parsesFully (slotDeserialize config.threadCount) value
  | .emissionIndex => parsesFully (u64VarIntDeserialize fun _ => true) value
  | .sender => parsesFully addressDeserialize value
  | .destination => parsesFully addressDeserialize value
  | .function =>
    -- the length is read as one raw byte, not as the varint the serializer writes
    match value with
    | [] => false
    | len :: bytes => if value.length ≠ len.toNat + 1 then false else (stringFromUtf8 bytes).isSome
  | .maxGas => parsesFully (u64VarIntDeserialize fun _ => true) value
  | .fee => parsesFully amountDeserialize value
  | .coins => parsesFully amountDeserialize value
  | .validityStart => parsesFully (slotDeserialize config.threadCount) value
  | .validityEnd => parsesFully (slotDeserialize config.threadCount) value
  | .functionParams => parsesFully (vecU8Deserialize 0 config.maxFunctionParamsLength.toNat) value
  | .trigger =>
    parsesFully (optionDeserialize (AsyncMessageTrigger.deserialize config.maxKeyLength)) value
  | .canBeExecuted => parsesFully boolDeserialize value

/-- `AsyncPool::is_key_value_valid`. -/
def isKeyValueValid (config : AsyncPoolConfig) (serializedKey serializedValue : Bytes) : Bool :=
  if !asyncPoolPrefix.isPrefixOf serializedKey then false
  else
    match AsyncMessageId.deserialize config.threadCount (serializedKey.drop asyncPoolPrefix.length) with
    | some (_, [ident]) =>
      match MessageField.ofIdent ident with
      | some field => isFieldValueValid config field serializedValue
      | none => false
    | _ => false

/-- On the key of a field of a stored id, the validator checks the value by
the field. -/
theorem isKeyValueValid_messageFieldKey (config : AsyncPoolConfig) {messageId : AsyncMessageId}
    (hid : messageId.Storable config.threadCount) (field : MessageField) (value : Bytes) :
    isKeyValueValid config (messageFieldKey messageId.serialize field) value =
      isFieldValueValid config field value := by
  have hpre : asyncPoolPrefix.isPrefixOf (messageFieldKey messageId.serialize field) = true := by
    rw [List.isPrefixOf_iff_prefix, messageFieldKey, List.append_assoc]
    exact List.prefix_append _ _
  have hdrop : (messageFieldKey messageId.serialize field).drop asyncPoolPrefix.length =
      messageId.serialize ++ [field.ident] := by
    rw [messageFieldKey, List.append_assoc, List.drop_left]
  rw [isKeyValueValid, hpre, hdrop, AsyncMessageId.deserialize_serialize hid]
  dsimp only
  rw [MessageField.ofIdent_ident]
  rfl

/-- The function name as `put_entry` writes it is accepted exactly when it has
fewer than 128 bytes: from there on the varint prefix has more than one byte
and its first byte is not the length. -/
theorem isFieldValueValid_function (config : AsyncPoolConfig) {name : String}
    (hlt : name.utf8ByteSize < 2 ^ 16) :
    isFieldValueValid config .function (Varint.encode name.utf8ByteSize ++ stringBytes name) = true ↔
      name.utf8ByteSize < 128 := by
  by_cases hsmall : name.utf8ByteSize < 128
  · have hbyte : (name.utf8ByteSize.toUInt8).toNat = name.utf8ByteSize :=
      Varint.toNat_toUInt8 (by omega)
    rw [Varint.encode_of_lt hsmall]
    simp only [isFieldValueValid, List.singleton_append, List.length_cons, length_stringBytes,
      hbyte, ne_eq, not_true_eq_false, if_false, stringFromUtf8_stringBytes, hsmall]
  · have hlong : 2 ≤ (Varint.encode name.utf8ByteSize).length :=
      Varint.lt_length_encode _ 1 (by omega)
    have hbyte : ((name.utf8ByteSize % 128 + 128).toUInt8).toNat = name.utf8ByteSize % 128 + 128 :=
      Varint.toNat_toUInt8 (by omega)
    have hmod : name.utf8ByteSize % 128 + 128 ≤ name.utf8ByteSize := by omega
    rw [Varint.encode_of_le (by omega)]
    have hlen : (Varint.encode (name.utf8ByteSize / 128)).length + 1 ≥ 2 := by
      rw [Varint.encode_of_le (by omega)] at hlong
      simpa using hlong
    simp only [isFieldValueValid, List.cons_append, List.length_cons, List.length_append,
      length_stringBytes, hbyte, hsmall, iff_false]
    rw [if_pos (by omega)]
    simp

/-- Every field other than the function name, written for a message within
the limits, is accepted. -/
theorem isFieldValueValid_serializeField (config : AsyncPoolConfig) {message : AsyncMessage}
    (hlim : message.WithinLimits config) {field : MessageField} {bytes : Bytes}
    (hbytes : message.serializeField field = some bytes) :
    isFieldValueValid config field bytes = true ↔
      (field = .function → message.function.utf8ByteSize < 128) := by
  cases field with
  | function =>
    obtain ⟨hlt, rfl⟩ := stringSerialize_eq hbytes
    rw [isFieldValueValid_function config hlt]
    exact ⟨fun h _ => h, fun h => h rfl⟩
  | emissionSlot =>
    cases hbytes
    exact iff_of_true (parsesFully_of_roundTrip (slotDeserialize_serialize hlim.emissionSlot_thread))
      (fun h => by cases h)
  | emissionIndex =>
    cases hbytes
    exact iff_of_true (parsesFully_of_roundTrip (u64VarIntDeserialize_serialize rfl))
      (fun h => by cases h)
  | sender =>
    cases hbytes
    exact iff_of_true (parsesFully_of_roundTrip (addressDeserialize_serialize _)) (fun h => by cases h)
  | destination =>
    cases hbytes
    exact iff_of_true (parsesFully_of_roundTrip (addressDeserialize_serialize _)) (fun h => by cases h)
  | maxGas =>
    cases hbytes
    exact iff_of_true (parsesFully_of_roundTrip (u64VarIntDeserialize_serialize rfl))
      (fun h => by cases h)
  | fee =>
    cases hbytes
    exact iff_of_true (parsesFully_of_roundTrip (amountDeserialize_serialize _)) (fun h => by cases h)
  | coins =>
    cases hbytes
    exact iff_of_true (parsesFully_of_roundTrip (amountDeserialize_serialize _)) (fun h => by cases h)
  | validityStart =>
    cases hbytes
    exact iff_of_true (parsesFully_of_roundTrip (slotDeserialize_serialize hlim.validityStart_thread))
      (fun h => by cases h)
  | validityEnd =>
    cases hbytes
    exact iff_of_true (parsesFully_of_roundTrip (slotDeserialize_serialize hlim.validityEnd_thread))
      (fun h => by cases h)
  | functionParams =>
    cases hbytes
    have h64 := config.maxFunctionParamsLength.toNat_lt
    have hlen := hlim.functionParams_length
    exact iff_of_true (parsesFully_of_roundTrip
      (vecU8Deserialize_serialize (by omega) (Nat.zero_le _) hlen)) (fun h => by cases h)
  | trigger =>
    cases hbytes
    exact iff_of_true (parsesFully_of_roundTrip (optionDeserialize_serialize fun t ht rest =>
      AsyncMessageTrigger.deserialize_serialize (hlim.trigger_key_length t ht) rest))
      (fun h => by cases h)
  | canBeExecuted =>
    cases hbytes
    exact iff_of_true (parsesFully_of_roundTrip (boolDeserialize_serialize _)) (fun h => by cases h)

/-- **What `put_entry` writes passes the validator, but for a long function
name.**  For a stored id and a message within the pool's limits, `put_entry`
succeeds, and the value it writes under the key of each field is accepted
exactly when the field is not the function name or the name has fewer than
128 bytes. -/
theorem isKeyValueValid_putEntry (config : AsyncPoolConfig) {messageId : AsyncMessageId}
    {message : AsyncMessage} (hid : messageId.Storable config.threadCount)
    (hlim : message.WithinLimits config) (batch : DBBatch) :
    ∃ b, putEntry messageId message batch = .ok b ∧ ∀ field, ∃ bytes,
      b.get? (messageFieldKey messageId.serialize field) = some (some bytes) ∧
      (isKeyValueValid config (messageFieldKey messageId.serialize field) bytes = true ↔
        (field = .function → message.function.utf8ByteSize < 128)) := by
  have hput : putEntry messageId message batch = .ok (putFields messageId message batch) :=
    putEntry_eq_ok hlim.function_lt batch
  refine ⟨_, hput, fun field => ?_⟩
  obtain ⟨bytes, hbytes⟩ :=
    Option.isSome_iff_exists.mp (message.serializeField_isSome hlim.function_lt field)
  refine ⟨bytes, get?_putEntry hput hbytes, ?_⟩
  rw [isKeyValueValid_messageFieldKey config hid]
  exact isFieldValueValid_serializeField config hlim hbytes

end AsyncPool

/-- A pool configuration with limits above those of the message below. -/
def boundaryPoolConfig : AsyncPoolConfig := ⟨10000, 1000, 10000, 32, 255⟩

/-- Sixteen bytes of a function name. -/
def functionNamePart : String := "abcdefghijklmnop"

/-- A function name of 128 bytes. -/
def longFunctionName : String :=
  functionNamePart ++ functionNamePart ++ functionNamePart ++ functionNamePart ++
    functionNamePart ++ functionNamePart ++ functionNamePart ++ functionNamePart

/-- The default message, calling a function with a 128-byte name. -/
def longNameMessage : AsyncMessage := { (default : AsyncMessage) with function := longFunctionName }

/-- The ledger of an empty database whose datastore values have at most one
byte. -/
def oneByteLedgerDb : LedgerDB (BitVec 4096) :=
  { LedgerDB.emptyLedgerDb with maxDatastoreValueLength := 1 }

theorem putEntry_boundary_values_rejected :
    (∃ b, oneByteLedgerDb.putEntry zeroAddress LedgerDB.datastoreEntry ∅ = .ok b ∧
      b.get? (Key.serialize false ⟨.datastore [7], zeroAddress⟩) = some (some [9]) ∧
      oneByteLedgerDb.isKeyValueValid (Key.serialize false ⟨.datastore [7], zeroAddress⟩) [9] =
        false) ∧
    ∃ b, AsyncPool.putEntry longNameMessage.computeId longNameMessage ∅ = .ok b ∧ ∃ bytes,
      b.get? (messageFieldKey longNameMessage.computeId.serialize .function) = some (some bytes) ∧
      AsyncPool.isKeyValueValid boundaryPoolConfig
        (messageFieldKey longNameMessage.computeId.serialize .function) bytes = false := by
  refine ⟨?_, ?_⟩
  · -- the value has the maximal length: written, then rejected
    have hput : ∃ b, oneByteLedgerDb.putEntry zeroAddress LedgerDB.datastoreEntry ∅ = .ok b :=
      LedgerDB.putEntry_isOk _ _ _ fun e he => by
        rw [List.mem_singleton.mp he]
        decide
    obtain ⟨b, hb⟩ := hput
    refine ⟨b, hb, ?_, ?_⟩
    · rw [LedgerDB.putEntry_writesAt hb ⟨.datastore [7], zeroAddress⟩, if_pos rfl]
      rfl
    · rw [LedgerDB.isKeyValueValid_serialize]
      rfl
  · have hsize : longNameMessage.function.utf8ByteSize = 128 := by
      have hpart : functionNamePart.utf8ByteSize = 16 := by decide
      show longFunctionName.utf8ByteSize = 128
      rw [longFunctionName]
      simp only [String.utf8ByteSize_append, hpart]
    have hlim : longNameMessage.WithinLimits boundaryPoolConfig :=
      ⟨by decide, by decide, by decide, by rw [hsize]; decide, by decide,
        fun trigger htrigger => by cases htrigger⟩
    obtain ⟨b, hb, hfields⟩ := AsyncPool.isKeyValueValid_putEntry boundaryPoolConfig
      (storable_computeId longNameMessage (by decide)) hlim ∅
    obtain ⟨bytes, hget, hvalid⟩ := hfields .function
    refine ⟨b, hb, bytes, hget, ?_⟩
    rw [Bool.eq_false_iff]
    intro htrue
    have hshort := hvalid.mp htrue rfl
    omega

end Massa
