import Mathlib.Data.List.Lex
import Mathlib.Data.Prod.Lex
import Mathlib.Data.Vector.Basic

/-!
# Basic value types of the node (`massa-models`)

The leaf types that the ledger, the asynchronous pool and the databases are
built from.  Byte vectors (`Vec<u8>`) are lists of bytes; the coin amount
keeps the fixed-width `u64` of the source, since later layers rely on its
checked and saturating arithmetic.

Hashes and addresses are ordered by their bytes.  The source keeps them in
hash maps (`PreHashMap`), whose iteration order is unspecified; the model
iterates them in this order, one of the orders the source may use, and every
modelled loop over such a map acts on each key independently.
-/

namespace Massa

/-- Bytes are ordered by value, so that byte strings are ordered
lexicographically as `Vec<u8>` and RocksDB keys are. -/
instance instLinearOrderUInt8 : LinearOrder UInt8 :=
  LinearOrder.lift' UInt8.toNat (fun _ _ h => UInt8.toNat_inj.mp h)

/-- `Vec<u8>`. -/
abbrev Bytes := List UInt8

/-- `Amount(u64)`: a fixed-point coin amount, stored as its raw `u64`
(`amount.rs`).  The derived `Default` is zero. -/
structure Amount where
  raw : UInt64
  deriving DecidableEq, Repr

instance : Inhabited Amount := ⟨⟨0⟩⟩

namespace Amount

/-- `Amount::is_zero`. -/
def isZero (self : Amount) : Bool := self.raw == 0

/-- `Amount::saturating_add`. -/
def saturatingAdd (self amount : Amount) : Amount :=
  if self.raw.toNat + amount.raw.toNat < 2 ^ 64 then ⟨self.raw + amount.raw⟩
  else ⟨UInt64.ofNat (2 ^ 64 - 1)⟩

/-- `Amount::checked_add`. -/
def checkedAdd (self amount : Amount) : Option Amount :=
  if self.raw.toNat + amount.raw.toNat < 2 ^ 64 then some ⟨self.raw + amount.raw⟩ else none

/-- `Amount::checked_sub`. -/
def checkedSub (self amount : Amount) : Option Amount :=
  if amount.raw ≤ self.raw then some ⟨self.raw - amount.raw⟩ else none

/-- `Amount::checked_mul_u64`. -/
def checkedMulU64 (self : Amount) (factor : UInt64) : Option Amount :=
  if self.raw.toNat * factor.toNat < 2 ^ 64 then some ⟨self.raw * factor⟩ else none

/-- `Amount::saturating_mul_u64`. -/
def saturatingMulU64 (self : Amount) (factor : UInt64) : Amount :=
  if self.raw.toNat * factor.toNat < 2 ^ 64 then ⟨self.raw * factor⟩
  else ⟨UInt64.ofNat (2 ^ 64 - 1)⟩

/-- `Amount::saturating_sub`. -/
def saturatingSub (self amount : Amount) : Amount :=
  ⟨if amount.raw ≤ self.raw then self.raw - amount.raw else 0⟩

/-- `std::cmp::min` under the derived order of the raw value: the first
amount on a tie. -/
def min (a b : Amount) : Amount := if b.raw < a.raw then b else a

theorem toNat_saturatingSub (a b : Amount) :
    (a.saturatingSub b).raw.toNat = a.raw.toNat - b.raw.toNat := by
  unfold saturatingSub
  split_ifs with hle
  · exact UInt64.toNat_sub_of_le _ _ hle
  · have hlt : a.raw.toNat < b.raw.toNat := UInt64.lt_iff_toNat_lt.mp (UInt64.not_le.mp hle)
    show 0 = a.raw.toNat - b.raw.toNat
    omega

theorem toNat_min (a b : Amount) : (a.min b).raw.toNat = Min.min a.raw.toNat b.raw.toNat := by
  unfold min
  split_ifs with hlt
  · have hlt' := UInt64.lt_iff_toNat_lt.mp hlt
    omega
  · have hle := UInt64.le_iff_toNat_le.mp (UInt64.not_lt.mp hlt)
    omega

/-- A sum that fits does not saturate. -/
theorem toNat_saturatingAdd {a b : Amount} (h : a.raw.toNat + b.raw.toNat < 2 ^ 64) :
    (a.saturatingAdd b).raw.toNat = a.raw.toNat + b.raw.toNat := by
  rw [saturatingAdd, if_pos h, UInt64.toNat_add, Nat.mod_eq_of_lt h]

/-- A product that fits does not saturate. -/
theorem toNat_saturatingMulU64 {a : Amount} {factor : UInt64}
    (h : a.raw.toNat * factor.toNat < 2 ^ 64) :
    (a.saturatingMulU64 factor).raw.toNat = a.raw.toNat * factor.toNat := by
  rw [saturatingMulU64, if_pos h, UInt64.toNat_mul, Nat.mod_eq_of_lt h]

theorem checkedMulU64_eq_some {a : Amount} {factor : UInt64} {r : Amount}
    (h : a.checkedMulU64 factor = some r) : r.raw.toNat = a.raw.toNat * factor.toNat := by
  unfold checkedMulU64 at h
  split_ifs at h with hfit
  cases h
  rw [UInt64.toNat_mul, Nat.mod_eq_of_lt hfit]

theorem checkedSub_eq_some {a b r : Amount} (h : a.checkedSub b = some r) :
    b.raw.toNat ≤ a.raw.toNat ∧ r.raw.toNat = a.raw.toNat - b.raw.toNat := by
  unfold checkedSub at h
  split_ifs at h with hle
  cases h
  have hle' : b.raw.toNat ≤ a.raw.toNat := UInt64.le_iff_toNat_le.mp hle
  exact ⟨hle', by rw [UInt64.toNat_sub_of_le _ _ hle]⟩

end Amount

/-- `Bytecode(Vec<u8>)`; the derived `Default` is the empty bytecode. -/
structure Bytecode where
  bytes : Bytes
  deriving DecidableEq, Repr

instance : Inhabited Bytecode := ⟨⟨[]⟩⟩

/-- `Hash`: a 32-byte BLAKE3 digest (`massa-hash`). -/
structure Hash where
  bytes : Vector UInt8 32
  deriving DecidableEq, Repr

/-- `Address`: a user (externally owned) or smart-contract address, each
identified by the hash of its version-0 payload (`address.rs`). -/
inductive Address where
  | user (hash : Hash)
  | sc (hash : Hash)
  deriving DecidableEq, Repr

namespace Hash

theorem bytes_toList_injective : Function.Injective fun h : Hash => h.bytes.toList := by
  rintro ⟨a⟩ ⟨b⟩ h
  simp only at h
  rw [Vector.toList_inj.mp h]

instance : LinearOrder Hash := LinearOrder.lift' _ bytes_toList_injective

end Hash

namespace Address

/-- The order key of an address: its type, then its hash. -/
def cmpKey : Address → Lex (ℕ × Hash)
  | user hash => toLex (0, hash)
  | sc hash => toLex (1, hash)

theorem cmpKey_injective : Function.Injective cmpKey := by
  rintro (a | a) (b | b) h <;> simp [cmpKey] at h <;> rw [h]

instance : LinearOrder Address := LinearOrder.lift' cmpKey cmpKey_injective

end Address

/-- The user address with the all-zero hash. -/
def zeroAddress : Address := .user ⟨Vector.replicate 32 0⟩

end Massa
