import Massa.Lib.SortedMap
import Massa.Models.Basic
import Massa.Models.Slot

/-!
# Executed operations and denunciations (`massa-executed-ops`)

Replay protection records, for every executed operation, whether it
succeeded and the slot until which it must be remembered, and for every
executed denunciation its index.  This module holds the change types of
the two records and the expiry rule of denunciations.
-/

namespace Massa

/-- `OperationId(Hash)`. -/
structure OperationId where
  hash : Hash
  deriving DecidableEq, Repr

/-- Operation ids are ordered by their hash. -/
instance : LinearOrder OperationId :=
  LinearOrder.lift' OperationId.hash fun a b h => by cases a; cases b; cases h; rfl

/-- `ExecutedOpsChanges = PreHashMap<OperationId, (bool, Slot)>`: for each
operation executed in a slot, whether it succeeded and its expiry slot. -/
abbrev ExecutedOpsChanges := SortedMap OperationId (Bool × Slot)

/-- `DenunciationIndex` (`massa-models/src/denunciation.rs`). -/
inductive DenunciationIndex where
  | blockHeader (slot : Slot)
  | endorsement (slot : Slot) (index : UInt32)
  deriving DecidableEq, Repr

/-- `DenunciationIndex::get_slot`. -/
def DenunciationIndex.getSlot : DenunciationIndex → Slot
  | .blockHeader slot => slot
  | .endorsement slot _ => slot

/-- `ExecutedDenunciationsChanges = HashSet<DenunciationIndex>`: only
membership and insertion are used, so a list stands for the set. -/
abbrev ExecutedDenunciationsChanges := List DenunciationIndex

/-- `u64::checked_sub`. -/
def checkedSub (a b : UInt64) : Option UInt64 :=
  if b ≤ a then some (a - b) else none

/-- `u64::saturating_add`. -/
def saturatingAdd (a b : UInt64) : UInt64 :=
  if a.toNat + b.toNat < 2 ^ 64 then a + b else UInt64.ofNat (2 ^ 64 - 1)

/-- A sum that fits does not saturate. -/
theorem toNat_saturatingAdd {a b : UInt64} (h : a.toNat + b.toNat < 2 ^ 64) :
    (saturatingAdd a b).toNat = a.toNat + b.toNat := by
  rw [saturatingAdd, if_pos h, UInt64.toNat_add, Nat.mod_eq_of_lt h]

/-- A saturating sum is the sum capped at `u64::MAX`. -/
theorem toNat_saturatingAdd_eq_min (a b : UInt64) :
    (saturatingAdd a b).toNat = min (a.toNat + b.toNat) (2 ^ 64 - 1) := by
  by_cases h : a.toNat + b.toNat < 2 ^ 64
  · rw [toNat_saturatingAdd h]
    omega
  · have hmax : (UInt64.ofNat (2 ^ 64 - 1)).toNat = 2 ^ 64 - 1 := rfl
    rw [saturatingAdd, if_neg h, hmax]
    omega

/-- `Denunciation::is_expired`:
`slot_period.checked_sub(denunciation_slot_period) > Some(expire_periods)`,
where `None` compares below every `Some`. -/
def Denunciation.isExpired (denunciationSlotPeriod slotPeriod denunciationExpirePeriods : UInt64) :
    Bool :=
  match checkedSub slotPeriod denunciationSlotPeriod with
  | some d => d > denunciationExpirePeriods
  | none => false

/-- A denunciation is expired exactly when the slot period is more than
`expire_periods` past its own period. -/
theorem Denunciation.isExpired_iff (dp sp e : UInt64) :
    Denunciation.isExpired dp sp e = true ↔ dp.toNat + e.toNat < sp.toNat := by
  unfold Denunciation.isExpired checkedSub
  by_cases h : dp ≤ sp
  · have hle : dp.toNat ≤ sp.toNat := UInt64.le_iff_toNat_le.mp h
    rw [if_pos h, decide_eq_true_iff, gt_iff_lt, UInt64.lt_iff_toNat_lt,
      UInt64.toNat_sub_of_le _ _ h]
    omega
  · have hlt : sp.toNat < dp.toNat := by
      rw [UInt64.le_iff_toNat_le] at h
      omega
    rw [if_neg h]
    simp only [Bool.false_eq_true, false_iff]
    omega

/-- Expiry holds at later slots and for shorter expiry periods. -/
theorem Denunciation.isExpired_of_le {dp sp sp' e e' : UInt64}
    (h : Denunciation.isExpired dp sp e' = true) (he : e.toNat ≤ e'.toNat)
    (hsp : sp.toNat ≤ sp'.toNat) : Denunciation.isExpired dp sp' e = true := by
  rw [Denunciation.isExpired_iff] at h ⊢
  omega

end Massa
