import Massa.Lib.Varint
import Massa.Models.Basic
import Massa.Models.Slot
import Mathlib.Data.Nat.Bits
import Mathlib.Data.List.GetD

/-!
# Binary serialization of the basic types (`massa-serialization`, `massa-models`)

The node writes its state to disk as byte strings built by serializers and
read back by deserializers written with `nom`.  Integers are LEB128 varints
(`U64VarIntSerializer`, `U16VarIntSerializer`); a deserializer reads the
varint (at most ten bytes for a `u64`, three for a `u16`, rejecting values
that overflow the type) and then checks that the value lies in the range it
was built with.  A deserializer returns the value and the unread rest of the
input, or `none` where `nom` returns an error.

Main results: every serializer is undone by its deserializer
(`u64VarIntDeserialize_serialize`, `vecU8Deserialize_serialize`,
`hashDeserialize_toList`, `hashXofDeserialize_serialize`,
`addressDeserialize_serialize`, `bitVecDeserialize_serialize`), whatever
bytes follow.
-/

namespace Massa

/-! ### Varints -/

/-- `U64VarIntSerializer::serialize`. -/
def u64VarIntSerialize (value : UInt64) : Bytes := Varint.encode value.toNat

/-- `U32VarIntSerializer::serialize`. -/
def u32VarIntSerialize (value : UInt32) : Bytes := Varint.encode value.toNat

/-- `U16VarIntSerializer::serialize`. -/
def u16VarIntSerialize (value : UInt16) : Bytes := Varint.encode value.toNat

/-- The deserializer that `gen_varint!` generates for a `bits`-bit integer
read in at most `maxBytes` bytes, with the range it was built with as the
test `inRange`. -/
def varIntDeserialize (maxBytes bits : ℕ) (inRange : ℕ → Bool) (buffer : Bytes) :
    Option (ℕ × Bytes) :=
  match Varint.decode maxBytes buffer with
  | some (value, rest) => if value < 2 ^ bits ∧ inRange value then some (value, rest) else none
  | none => none

/-- `U64VarIntDeserializer`. -/
def u64VarIntDeserialize (inRange : ℕ → Bool) (buffer : Bytes) : Option (ℕ × Bytes) :=
  varIntDeserialize 10 64 inRange buffer

/-- `U32VarIntDeserializer`. -/
def u32VarIntDeserialize (inRange : ℕ → Bool) (buffer : Bytes) : Option (ℕ × Bytes) :=
  varIntDeserialize 5 32 inRange buffer

/-- `U16VarIntDeserializer`. -/
def u16VarIntDeserialize (inRange : ℕ → Bool) (buffer : Bytes) : Option (ℕ × Bytes) :=
  varIntDeserialize 3 16 inRange buffer

theorem varIntDeserialize_encode {maxBytes bits : ℕ} {inRange : ℕ → Bool} {value : ℕ}
    (hlen : (Varint.encode value).length ≤ maxBytes) (hbits : value < 2 ^ bits)
    (hrange : inRange value = true) (rest : Bytes) :
    varIntDeserialize maxBytes bits inRange (Varint.encode value ++ rest) = some (value, rest) := by
  rw [varIntDeserialize, Varint.decode_encode value rest maxBytes hlen]
  dsimp only
  rw [if_pos ⟨hbits, hrange⟩]

/-- The `u64` deserializer reads back any number below `2 ^ 64`: its
encoding takes at most ten bytes. -/
theorem u64VarIntDeserialize_encode {inRange : ℕ → Bool} {n : ℕ} (hn : n < 2 ^ 64)
    (hrange : inRange n = true) (rest : Bytes) :
    u64VarIntDeserialize inRange (Varint.encode n ++ rest) = some (n, rest) := by
  have hbytes : (Varint.encode n).length ≤ 10 := by
    apply Varint.length_encode_le n 9
    norm_num at hn ⊢
    omega
  exact varIntDeserialize_encode hbytes hn hrange rest

theorem u64VarIntDeserialize_serialize {inRange : ℕ → Bool} {value : UInt64}
    (hrange : inRange value.toNat = true) (rest : Bytes) :
    u64VarIntDeserialize inRange (u64VarIntSerialize value ++ rest) = some (value.toNat, rest) :=
  u64VarIntDeserialize_encode value.toNat_lt hrange rest

/-- The `u32` deserializer reads back any number below `2 ^ 32`, in at most
five bytes. -/
theorem u32VarIntDeserialize_encode {inRange : ℕ → Bool} {n : ℕ} (hn : n < 2 ^ 32)
    (hrange : inRange n = true) (rest : Bytes) :
    u32VarIntDeserialize inRange (Varint.encode n ++ rest) = some (n, rest) := by
  have hbytes : (Varint.encode n).length ≤ 5 := by
    apply Varint.length_encode_le n 4
    norm_num at hn ⊢
    omega
  exact varIntDeserialize_encode hbytes hn hrange rest

/-- The `u16` deserializer reads back any number below `2 ^ 16`, in at most
three bytes. -/
theorem u16VarIntDeserialize_encode {inRange : ℕ → Bool} {n : ℕ} (hn : n < 2 ^ 16)
    (hrange : inRange n = true) (rest : Bytes) :
    u16VarIntDeserialize inRange (Varint.encode n ++ rest) = some (n, rest) := by
  have hbytes : (Varint.encode n).length ≤ 3 := by
    apply Varint.length_encode_le n 2
    norm_num at hn ⊢
    omega
  exact varIntDeserialize_encode hbytes hn hrange rest

/-! ### Byte vectors -/

/-- `VecU8Serializer`: the length as a `u64` varint, then the bytes. -/
def vecU8Serialize (value : Bytes) : Bytes := Varint.encode value.length ++ value

/-- `VecU8Deserializer::new(Included(min), Included(max))`: read the length in
range, then that many bytes. -/
def vecU8Deserialize (minLength maxLength : ℕ) (buffer : Bytes) : Option (Bytes × Bytes) :=
  match u64VarIntDeserialize (fun n => minLength ≤ n ∧ n ≤ maxLength) buffer with
  | some (len, rest) => if len ≤ rest.length then some (rest.take len, rest.drop len) else none
  | none => none

theorem vecU8Deserialize_serialize {minLength maxLength : ℕ} {value : Bytes}
    (hlen : value.length < 2 ^ 64) (hmin : minLength ≤ value.length)
    (hmax : value.length ≤ maxLength) (rest : Bytes) :
    vecU8Deserialize minLength maxLength (vecU8Serialize value ++ rest) = some (value, rest) := by
  rw [vecU8Deserialize, vecU8Serialize, List.append_assoc,
    u64VarIntDeserialize_encode hlen (by simp [hmin, hmax])]
  simp

/-- A deserializer accepts a buffer when it reads all of it. -/
def parsesFully {α : Type} (deserialize : Bytes → Option (α × Bytes)) (buffer : Bytes) : Bool :=
  match deserialize buffer with
  | some (_, rest) => rest.isEmpty
  | none => false

theorem parsesFully_of_eq {α : Type} {deserialize : Bytes → Option (α × Bytes)} {buffer : Bytes}
    {value : α} (h : deserialize buffer = some (value, [])) : parsesFully deserialize buffer := by
  rw [parsesFully, h]
  rfl

/-- A buffer that a deserializer reads back whatever follows it parses fully. -/
theorem parsesFully_of_roundTrip {α : Type} {deserialize : Bytes → Option (α × Bytes)}
    {buffer : Bytes} {value : α} (h : ∀ rest, deserialize (buffer ++ rest) = some (value, rest)) :
    parsesFully deserialize buffer := by
  have hnil := h []
  rw [List.append_nil] at hnil
  exact parsesFully_of_eq hnil

/-! ### Amounts and bytecodes -/

/-- `AmountSerializer`: the raw `u64` as a varint. -/
def amountSerialize (value : Amount) : Bytes := u64VarIntSerialize value.raw

/-- `AmountDeserializer::new(Included(Amount::MIN), Included(Amount::MAX))`:
every raw `u64` is in range. -/
def amountDeserialize (buffer : Bytes) : Option (Amount × Bytes) :=
  (u64VarIntDeserialize (fun _ => true) buffer).map fun r => (⟨r.1.toUInt64⟩, r.2)

theorem amountDeserialize_serialize (value : Amount) (rest : Bytes) :
    amountDeserialize (amountSerialize value ++ rest) = some (value, rest) := by
  rw [amountDeserialize, amountSerialize, u64VarIntDeserialize_serialize rfl]
  simp

/-- `BYTECODE_VERSION`. -/
def bytecodeVersion : UInt64 := 0

/-- `BytecodeSerializer`: the version, then the bytes as a `VecU8`. -/
def bytecodeSerialize (value : Bytecode) : Bytes :=
  u64VarIntSerialize bytecodeVersion ++ vecU8Serialize value.bytes

/-- `BytecodeDeserializer::new(max_datastore_value_length)`: any version, then
at most `maxDatastoreValueLength` bytes. -/
def bytecodeDeserialize (maxDatastoreValueLength : UInt64) (buffer : Bytes) :
    Option (Bytecode × Bytes) :=
  match u64VarIntDeserialize (fun _ => true) buffer with
  | some (_, rest) =>
    (vecU8Deserialize 0 maxDatastoreValueLength.toNat rest).map fun r => (⟨r.1⟩, r.2)
  | none => none

theorem bytecodeDeserialize_serialize {maxDatastoreValueLength : UInt64} {value : Bytecode}
    (hlen : value.bytes.length ≤ maxDatastoreValueLength.toNat) (rest : Bytes) :
    bytecodeDeserialize maxDatastoreValueLength (bytecodeSerialize value ++ rest) =
      some (value, rest) := by
  have h64 : value.bytes.length < 2 ^ 64 := lt_of_le_of_lt hlen maxDatastoreValueLength.toNat_lt
  rw [bytecodeDeserialize, bytecodeSerialize, List.append_assoc,
    u64VarIntDeserialize_serialize rfl]
  dsimp only
  rw [vecU8Deserialize_serialize h64 (Nat.zero_le _) hlen]
  rfl

/-! ### Bit vectors -/

/-- The bits of a byte, least significant first (`BitVec<u8, Lsb0>`). -/
def byteBits (b : UInt8) : List Bool := (List.range 8).map fun i => b.toNat.testBit i

/-- `BitVecDeserializer`: the number of bits as a `u32` varint, then
`div_ceil(n, 8)` bytes of which the first `n` bits are kept.  The
`try_from_vec` and length checks after the byte count cannot fail on a
buffer of that length. -/
def bitVecDeserialize (buffer : Bytes) : Option (List Bool × Bytes) :=
  match u32VarIntDeserialize (fun _ => true) buffer with
  | some (nEntries, rest) =>
    let bitsU8Len := (nEntries + 7) / 8
    if rest.length < bitsU8Len then none
    else some (((rest.take bitsU8Len).flatMap byteBits).take nEntries, rest.drop bitsU8Len)
  | none => none

/-- Up to eight bits packed in a byte, the first bit least significant. -/
def packByte (bits : List Bool) : UInt8 := (bits.foldr Nat.bit 0).toUInt8

/-- `BitVec::into_vec` for `BitVec<u8, Lsb0>`: the bits in bytes of eight,
each least significant bit first, the unused bits of the last byte zero. -/
def packBits : List Bool → Bytes
  | [] => []
  | b :: rest => packByte ((b :: rest).take 8) :: packBits ((b :: rest).drop 8)
termination_by bits => bits.length
decreasing_by
  simp only [List.length_drop, List.length_cons]
  omega

/-- `BitVecSerializer`: the number of bits as a `u32` varint, then the
storage bytes.  A vector of `2 ^ 32` bits or more fails to serialize. -/
def bitVecSerialize (value : List Bool) : Option Bytes :=
  if value.length < 2 ^ 32 then some (Varint.encode value.length ++ packBits value) else none

theorem testBit_foldr_bit (bits : List Bool) (i : ℕ) :
    (bits.foldr Nat.bit 0).testBit i = bits.getD i false := by
  induction bits generalizing i with
  | nil => simp
  | cons b bits ih =>
    cases i with
    | zero => simp
    | succ i => simp [Nat.testBit_bit_succ, ih]

theorem foldr_bit_lt (bits : List Bool) : bits.foldr Nat.bit 0 < 2 ^ bits.length := by
  induction bits with
  | nil => simp
  | cons b bits ih =>
    show Nat.bit b (bits.foldr Nat.bit 0) < 2 ^ (bits.length + 1)
    exact Nat.bit_lt_two_pow_succ_iff.mpr ih

/-- A byte packed from at most eight bits reads back as those bits, then
zeros. -/
theorem byteBits_packByte {bits : List Bool} (h : bits.length ≤ 8) :
    byteBits (packByte bits) = bits ++ List.replicate (8 - bits.length) false := by
  have hlt : bits.foldr Nat.bit 0 < 256 :=
    lt_of_lt_of_le (foldr_bit_lt bits) (by simpa using Nat.pow_le_pow_right two_pos h)
  have htoNat : (packByte bits).toNat = bits.foldr Nat.bit 0 := Varint.toNat_toUInt8 hlt
  apply List.ext_getElem
  · simp [byteBits]
    omega
  · intro i hi _
    simp only [byteBits, List.length_map, List.length_range] at hi
    simp only [byteBits, List.getElem_map, List.getElem_range, htoNat, testBit_foldr_bit]
    by_cases hlen : i < bits.length
    · rw [List.getElem_append_left hlen, List.getD_eq_getElem _ _ hlen]
    · rw [List.getElem_append_right (not_lt.mp hlen), List.getElem_replicate,
        List.getD_eq_default _ _ (not_lt.mp hlen)]

/-- The storage bytes read back as the bits, then padding. -/
theorem flatMap_byteBits_packBits (bits : List Bool) :
    ∃ pad, (packBits bits).flatMap byteBits = bits ++ pad := by
  induction bits using packBits.induct with
  | case1 => exact ⟨[], by simp [packBits]⟩
  | case2 b rest ih =>
    obtain ⟨pad, hpad⟩ := ih
    rw [packBits, List.flatMap_cons, byteBits_packByte (by simp), hpad]
    by_cases hshort : (b :: rest).length ≤ 8
    · -- the last byte: nothing follows the padding
      rw [List.drop_eq_nil_of_le hshort, List.take_of_length_le hshort, List.nil_append]
      exact ⟨List.replicate (8 - (b :: rest).length) false ++ pad, by rw [List.append_assoc]⟩
    · have hfull : 8 - ((b :: rest).take 8).length = 0 := by
        rw [List.length_take]
        omega
      refine ⟨pad, ?_⟩
      rw [hfull, List.replicate_zero, List.append_nil, ← List.append_assoc, List.take_append_drop]

theorem length_packBits (bits : List Bool) : (packBits bits).length = (bits.length + 7) / 8 := by
  induction bits using packBits.induct with
  | case1 => simp [packBits]
  | case2 b rest ih =>
    rw [packBits, List.length_cons, ih, List.length_drop, List.length_cons]
    omega

/-- `BitVecDeserializer` undoes `BitVecSerializer`. -/
theorem bitVecDeserialize_serialize {value : List Bool} {serialized : Bytes}
    (h : bitVecSerialize value = some serialized) (rest : Bytes) :
    bitVecDeserialize (serialized ++ rest) = some (value, rest) := by
  unfold bitVecSerialize at h
  split_ifs at h with hlen
  cases h
  have hbytes : (Varint.encode value.length).length ≤ 5 := by
    apply Varint.length_encode_le value.length 4
    omega
  have hcount : (value.length + 7) / 8 = (packBits value).length := (length_packBits value).symm
  rw [bitVecDeserialize, List.append_assoc, u32VarIntDeserialize,
    varIntDeserialize_encode hbytes hlen rfl]
  dsimp only
  rw [hcount, if_neg (by simp), List.take_left, List.drop_left]
  obtain ⟨pad, hpad⟩ := flatMap_byteBits_packBits value
  rw [hpad, List.take_left]

/-! ### Hashes and addresses -/

/-- `HASH_XOF_SIZE_BYTES`. -/
def hashXofSizeBytes : ℕ := 512

/-- `HashXof<HASH_XOF_SIZE_BYTES>`: an extendable-output hash. -/
structure HashXof where
  bytes : Vector UInt8 hashXofSizeBytes
  deriving DecidableEq

/-- `HashXofSerializer`: the bytes of the hash. -/
def hashXofSerialize (value : HashXof) : Bytes := value.bytes.toList

/-- `HashXofDeserializer`: the next `HASH_XOF_SIZE_BYTES` bytes. -/
def hashXofDeserialize (buffer : Bytes) : Option (HashXof × Bytes) :=
  if h : hashXofSizeBytes ≤ buffer.length then
    some (⟨⟨(buffer.take hashXofSizeBytes).toArray, by simp [h]⟩⟩, buffer.drop hashXofSizeBytes)
  else none

theorem hashXofDeserialize_serialize (hash : HashXof) (rest : Bytes) :
    hashXofDeserialize (hashXofSerialize hash ++ rest) = some (hash, rest) := by
  obtain ⟨⟨bytes, hsize⟩⟩ := hash
  have hlen : bytes.toList.length = hashXofSizeBytes := by simpa using hsize
  have hfit : hashXofSizeBytes ≤ (bytes.toList ++ rest).length := by simp [hlen]
  rw [hashXofSerialize, hashXofDeserialize, dif_pos (by simpa using hfit)]
  simp [← hlen]

/-- `HashDeserializer`: the next 32 bytes. -/
def hashDeserialize (buffer : Bytes) : Option (Hash × Bytes) :=
  if h : 32 ≤ buffer.length then
    some (⟨⟨(buffer.take 32).toArray, by simp [h]⟩⟩, buffer.drop 32)
  else none

theorem hashDeserialize_toList (hash : Hash) (rest : Bytes) :
    hashDeserialize (hash.bytes.toList ++ rest) = some (hash, rest) := by
  obtain ⟨⟨bytes, hsize⟩⟩ := hash
  have hlen : bytes.toList.length = 32 := by simpa using hsize
  have h32 : 32 ≤ (bytes.toList ++ rest).length := by simp [hlen]
  rw [hashDeserialize, dif_pos (by simpa using h32)]
  simp [← hlen]

/-- `AddressSerializer`: the address type (`0` user, `1` smart contract) and
the version `0` as varints, then the hash. -/
def addressSerialize : Address → Bytes
  | .user hash => Varint.encode 0 ++ Varint.encode 0 ++ hash.bytes.toList
  | .sc hash => Varint.encode 1 ++ Varint.encode 0 ++ hash.bytes.toList

/-- The version and hash part of `AddressDeserializer`, shared by both
address types: only version `0` exists. -/
def addressPayloadDeserialize (buffer : Bytes) : Option (Hash × Bytes) :=
  if buffer.length < 2 then none
  else
    match u64VarIntDeserialize (fun v => v < 2 ^ 64 - 1) buffer with
    | some (version, rest) => if version = 0 then hashDeserialize rest else none
    | none => none

/-- `AddressDeserializer`. -/
def addressDeserialize (buffer : Bytes) : Option (Address × Bytes) :=
  if buffer.length < 2 then none
  else
    match u64VarIntDeserialize (fun t => t ≤ 1) buffer with
    | some (addrType, rest) =>
      -- `USER_PREFIX`, `SC_PREFIX`
      if addrType = 0 then (addressPayloadDeserialize rest).map fun (h, r) => (.user h, r)
      else if addrType = 1 then (addressPayloadDeserialize rest).map fun (h, r) => (.sc h, r)
      else none
    | none => none

theorem addressPayloadDeserialize_serialize (hash : Hash) (rest : Bytes) :
    addressPayloadDeserialize (Varint.encode 0 ++ hash.bytes.toList ++ rest) = some (hash, rest) := by
  have hlen : hash.bytes.toList.length = 32 := by simp
  have hdec : u64VarIntDeserialize (fun v => v < 2 ^ 64 - 1)
      (Varint.encode 0 ++ (hash.bytes.toList ++ rest)) = some (0, hash.bytes.toList ++ rest) :=
    varIntDeserialize_encode (by rw [Varint.length_encode_of_lt (by norm_num)]; norm_num)
      (by norm_num) (by decide) _
  -- the varint and the hash are longer than the minimum of two bytes
  have hlong : ¬(Varint.encode 0 ++ hash.bytes.toList ++ rest).length < 2 := by
    rw [List.length_append, List.length_append, Varint.length_encode_of_lt (by norm_num), hlen]
    omega
  rw [addressPayloadDeserialize, if_neg hlong, List.append_assoc, hdec]
  dsimp only
  rw [if_pos rfl, hashDeserialize_toList]

theorem addressDeserialize_serialize (addr : Address) (rest : Bytes) :
    addressDeserialize (addressSerialize addr ++ rest) = some (addr, rest) := by
  have hlen : ∀ hash : Hash, hash.bytes.toList.length = 32 := by simp
  cases addr with
  | user hash =>
    have hdec : u64VarIntDeserialize (fun t => t ≤ 1)
        (Varint.encode 0 ++ (Varint.encode 0 ++ hash.bytes.toList ++ rest)) =
          some (0, Varint.encode 0 ++ hash.bytes.toList ++ rest) :=
      varIntDeserialize_encode (by rw [Varint.length_encode_of_lt (by norm_num)]; norm_num)
      (by norm_num) (by decide) _
    rw [addressDeserialize, if_neg (by simp [addressSerialize, Varint.encode_of_lt, hlen]),
      addressSerialize, List.append_assoc, List.append_assoc, ← List.append_assoc _ _ rest, hdec]
    dsimp only
    rw [if_pos rfl, addressPayloadDeserialize_serialize]
    rfl
  | sc hash =>
    have hdec : u64VarIntDeserialize (fun t => t ≤ 1)
        (Varint.encode 1 ++ (Varint.encode 0 ++ hash.bytes.toList ++ rest)) =
          some (1, Varint.encode 0 ++ hash.bytes.toList ++ rest) :=
      varIntDeserialize_encode (by rw [Varint.length_encode_of_lt (by norm_num)]; norm_num)
      (by norm_num) (by decide) _
    rw [addressDeserialize, if_neg (by simp [addressSerialize, Varint.encode_of_lt, hlen]),
      addressSerialize, List.append_assoc, List.append_assoc, ← List.append_assoc _ _ rest, hdec]
    dsimp only
    rw [if_neg one_ne_zero, if_pos rfl, addressPayloadDeserialize_serialize]
    rfl

theorem length_addressSerialize (addr : Address) : (addressSerialize addr).length = 34 := by
  cases addr <;> simp [addressSerialize, Varint.encode_of_lt]

theorem addressSerialize_injective : Function.Injective addressSerialize := by
  intro a b h
  have ha := addressDeserialize_serialize a []
  rw [h, addressDeserialize_serialize] at ha
  exact (Prod.mk.inj (Option.some_inj.mp ha)).1.symm

/-! ### Slots, booleans, options and strings -/

/-- `SlotSerializer`: the period as a `u64` varint, then the thread byte. -/
def slotSerialize (value : Slot) : Bytes := u64VarIntSerialize value.period ++ [value.thread]

/-- `SlotDeserializer` built with every period and the threads below
`threadCount`. -/
def slotDeserialize (threadCount : UInt8) (buffer : Bytes) : Option (Slot × Bytes) :=
  match u64VarIntDeserialize (fun _ => true) buffer with
  | some (period, thread :: rest) =>
    if thread < threadCount then some (⟨period.toUInt64, thread⟩, rest) else none
  | _ => none

theorem slotDeserialize_serialize {threadCount : UInt8} {value : Slot}
    (hthread : value.thread < threadCount) (rest : Bytes) :
    slotDeserialize threadCount (slotSerialize value ++ rest) = some (value, rest) := by
  rw [slotDeserialize, slotSerialize, List.append_assoc, u64VarIntDeserialize_serialize rfl]
  dsimp only [List.cons_append, List.nil_append]
  rw [if_pos hthread, Nat.toUInt64_eq, UInt64.ofNat_toNat]

/-- `BoolSerializer`: one byte, `1` or `0`. -/
def boolSerialize (value : Bool) : Bytes := [if value then 1 else 0]

/-- `BoolDeserializer`: the byte `1` or `0`, anything else fails. -/
def boolDeserialize : Bytes → Option (Bool × Bytes)
  | first :: rest => if first = 1 then some (true, rest) else if first = 0 then some (false, rest)
    else none
  | [] => none

theorem boolDeserialize_serialize (value : Bool) (rest : Bytes) :
    boolDeserialize (boolSerialize value ++ rest) = some (value, rest) := by
  cases value <;> rfl

/-- `OptionSerializer`: the byte `b'1'` then the value, or the byte `b'0'`. -/
def optionSerialize {α : Type} (serialize : α → Bytes) : Option α → Bytes
  | some value => 49 :: serialize value
  | none => [48]

/-- `OptionDeserializer`: `b'0'` reads `None`, `b'1'` is followed by a value. -/
def optionDeserialize {α : Type} (deserialize : Bytes → Option (α × Bytes)) :
    Bytes → Option (Option α × Bytes)
  | first :: rest =>
    if first = 48 then some (none, rest)
    else if first = 49 then (deserialize rest).map fun r => (some r.1, r.2)
    else none
  | [] => none

theorem optionDeserialize_serialize {α : Type} {serialize : α → Bytes}
    {deserialize : Bytes → Option (α × Bytes)} {value : Option α}
    (hround : ∀ v ∈ value, ∀ rest, deserialize (serialize v ++ rest) = some (v, rest))
    (rest : Bytes) :
    optionDeserialize deserialize (optionSerialize serialize value ++ rest) = some (value, rest) := by
  cases value with
  | none => rfl
  | some v =>
    show optionDeserialize deserialize (49 :: (serialize v ++ rest)) = _
    rw [optionDeserialize, if_neg (by decide), if_pos rfl, hround v rfl rest]
    rfl

/-- The bytes of a string (`String::as_bytes`), its UTF-8 encoding. -/
def stringBytes (value : String) : Bytes := value.toByteArray.data.toList

/-- `String::from_utf8`. -/
def stringFromUtf8 (bytes : Bytes) : Option String := String.fromUTF8? ⟨bytes.toArray⟩

/-- `StringSerializer<U16VarIntSerializer, u16>`: the byte length as a `u16`
varint, then the bytes; a string of more than `u16::MAX` bytes fails. -/
def stringSerialize (value : String) : Option Bytes :=
  if value.utf8ByteSize < 2 ^ 16 then
    some (u16VarIntSerialize value.utf8ByteSize.toUInt16 ++ stringBytes value)
  else none

theorem length_stringBytes (value : String) : (stringBytes value).length = value.utf8ByteSize := by
  rw [stringBytes, Array.length_toList]
  rfl

theorem stringFromUtf8_stringBytes (value : String) :
    (stringFromUtf8 (stringBytes value)).isSome := by
  rw [stringFromUtf8, stringBytes, Array.toArray_toList]
  simp only [String.fromUTF8?]
  rw [dif_pos value.isValidUTF8]
  rfl

/-- `String::from_utf8` reads back the bytes of a string. -/
theorem stringFromUtf8_stringBytes_eq (value : String) :
    stringFromUtf8 (stringBytes value) = some value := by
  rw [stringFromUtf8, stringBytes, Array.toArray_toList]
  simp only [String.fromUTF8?]
  rw [dif_pos value.isValidUTF8]
  rfl

/-- `StringDeserializer<U16VarIntDeserializer, u16>` built with
`U16VarIntDeserializer::new(Included(0), Included(max_length))`: the byte
length in range, then that many bytes (`length_data`), which must be UTF-8. -/
def stringDeserialize (maxLength : ℕ) (buffer : Bytes) : Option (String × Bytes) :=
  match u16VarIntDeserialize (fun n => 0 ≤ n ∧ n ≤ maxLength) buffer with
  | some (len, rest) =>
    if len ≤ rest.length then (stringFromUtf8 (rest.take len)).map fun s => (s, rest.drop len)
    else none
  | none => none

/-- A string that serializes is written as the varint of its byte length,
then its bytes. -/
theorem stringSerialize_eq {value : String} {bytes : Bytes} (h : stringSerialize value = some bytes) :
    value.utf8ByteSize < 2 ^ 16 ∧ bytes = Varint.encode value.utf8ByteSize ++ stringBytes value := by
  rw [stringSerialize] at h
  split_ifs at h with hlt
  refine ⟨hlt, ?_⟩
  rw [← Option.some_inj.mp h, u16VarIntSerialize, Nat.toUInt16_eq, UInt16.toNat_ofNat_of_lt' hlt]

/-- **Strings.**  A string of at most `maxLength` bytes serializes, and the
deserializer reads it back. -/
theorem stringDeserialize_serialize {maxLength : ℕ} {value : String}
    (hmax : value.utf8ByteSize ≤ maxLength) (hfit : value.utf8ByteSize < 2 ^ 16) :
    ∃ bytes, stringSerialize value = some bytes ∧
      ∀ rest, stringDeserialize maxLength (bytes ++ rest) = some (value, rest) := by
  refine ⟨_, if_pos hfit, fun rest => ?_⟩
  have hsize : (value.utf8ByteSize.toUInt16).toNat = value.utf8ByteSize := by
    rw [Nat.toUInt16_eq, UInt16.toNat_ofNat_of_lt' hfit]
  have hlen := length_stringBytes value
  rw [stringDeserialize, u16VarIntSerialize, hsize, List.append_assoc,
    u16VarIntDeserialize_encode hfit (by simp [hmax])]
  dsimp only
  rw [if_pos (by rw [List.length_append, hlen]; omega), List.take_left' hlen,
    List.drop_left' hlen, stringFromUtf8_stringBytes_eq]
  rfl

end Massa
