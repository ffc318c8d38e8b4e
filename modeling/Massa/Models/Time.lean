import Mathlib

/-!
# Times in milliseconds (`massa-time`)

`MassaTime` is a `u64` number of milliseconds, used both for instants and
for durations.  Its arithmetic is checked (`checked_*`, failing with a
`TimeError`) or saturating (`saturating_*`), as the source's.  Times are
ordered by their milliseconds (`MassaTime.lt_iff`, `MassaTime.le_iff`).
-/

namespace Massa

/-- `TimeError`. -/
inductive TimeError where
  | conversionError
  | timeOverflowError
  | checkedOperationError (msg : String)
  deriving DecidableEq, Repr

/-- The `Debug` text of a `TimeError`. -/
def TimeError.debug : TimeError → String
  | .conversionError => "ConversionError"
  | .timeOverflowError => "TimeOverflowError"
  | .checkedOperationError msg => "CheckedOperationError(" ++ msg.quote ++ ")"

/-- `MassaTime`: a time or a duration in milliseconds. -/
structure MassaTime where
  millis : UInt64
  deriving DecidableEq, Repr

namespace MassaTime

theorem millis_toNat_injective : Function.Injective fun t : MassaTime => t.millis.toNat := by
  rintro ⟨a⟩ ⟨b⟩ h
  simp only at h
  rw [UInt64.toNat_inj.mp h]

instance : LinearOrder MassaTime := LinearOrder.lift' _ millis_toNat_injective

theorem lt_iff {a b : MassaTime} : a < b ↔ a.millis.toNat < b.millis.toNat := Iff.rfl

theorem le_iff {a b : MassaTime} : a ≤ b ↔ a.millis.toNat ≤ b.millis.toNat := Iff.rfl

/-- `MassaTime::from_millis`. -/
def fromMillis (value : UInt64) : MassaTime := ⟨value⟩

/-- `MassaTime::saturating_add`. -/
def saturatingAdd (self t : MassaTime) : MassaTime :=
  ⟨if self.millis.toNat + t.millis.toNat < 2 ^ 64 then self.millis + t.millis
    else UInt64.ofNat (2 ^ 64 - 1)⟩

/-- Adding a duration that does not overflow adds its milliseconds. -/
theorem toNat_saturatingAdd {a t : MassaTime} (h : a.millis.toNat + t.millis.toNat < 2 ^ 64) :
    (a.saturatingAdd t).millis.toNat = a.millis.toNat + t.millis.toNat := by
  rw [saturatingAdd, if_pos h, UInt64.toNat_add]
  exact Nat.mod_eq_of_lt h

/-- `MassaTime::EPSILON`: one millisecond. -/
def epsilon : MassaTime := ⟨1⟩

/-- `MassaTime::saturating_sub`. -/
def saturatingSub (self t : MassaTime) : MassaTime :=
  ⟨if t.millis ≤ self.millis then self.millis - t.millis else 0⟩

/-- `MassaTime::checked_sub`. -/
def checkedSub (self t : MassaTime) : Except TimeError MassaTime :=
  if t.millis ≤ self.millis then .ok ⟨self.millis - t.millis⟩
  else .error (.checkedOperationError "subtraction error")

/-- `MassaTime::checked_add`. -/
def checkedAdd (self t : MassaTime) : Except TimeError MassaTime :=
  if self.millis.toNat + t.millis.toNat < 2 ^ 64 then .ok ⟨self.millis + t.millis⟩
  else .error (.checkedOperationError "addition error")

/-- `MassaTime::checked_div_time`: how many times `t` fits, as a number. -/
def checkedDivTime (self t : MassaTime) : Except TimeError UInt64 :=
  if t.millis = 0 then .error (.checkedOperationError "division error")
  else .ok (self.millis / t.millis)

/-- `MassaTime::checked_div_u64`. -/
def checkedDivU64 (self : MassaTime) (n : UInt64) : Except TimeError MassaTime :=
  if n = 0 then .error (.checkedOperationError "division error")
  else .ok ⟨self.millis / n⟩

/-- `MassaTime::checked_mul`. -/
def checkedMul (self : MassaTime) (n : UInt64) : Except TimeError MassaTime :=
  if self.millis.toNat * n.toNat < 2 ^ 64 then .ok ⟨self.millis * n⟩
  else .error (.checkedOperationError "multiplication error")

/-- `MassaTime::checked_rem_time`. -/
def checkedRemTime (self t : MassaTime) : Except TimeError MassaTime :=
  if t.millis = 0 then .error (.checkedOperationError "remainder error")
  else .ok ⟨self.millis % t.millis⟩

theorem toNat_saturatingSub (self t : MassaTime) :
    (self.saturatingSub t).millis.toNat = self.millis.toNat - t.millis.toNat := by
  unfold saturatingSub
  split_ifs with hle
  · exact UInt64.toNat_sub_of_le _ _ hle
  · rw [UInt64.le_iff_toNat_le] at hle
    simp only [UInt64.toNat_zero]
    omega

theorem checkedSub_of_le {self t : MassaTime} (h : t ≤ self) :
    ∃ r, self.checkedSub t = .ok r ∧ r.millis.toNat = self.millis.toNat - t.millis.toNat :=
  ⟨_, if_pos (UInt64.le_iff_toNat_le.mpr h), UInt64.toNat_sub_of_le _ _ (UInt64.le_iff_toNat_le.mpr h)⟩

theorem checkedSub_of_lt {self t : MassaTime} (h : self < t) :
    self.checkedSub t = .error (.checkedOperationError "subtraction error") :=
  if_neg (by rw [UInt64.le_iff_toNat_le]; exact not_le.mpr h)

theorem checkedAdd_of_lt {self t : MassaTime} (h : self.millis.toNat + t.millis.toNat < 2 ^ 64) :
    ∃ r, self.checkedAdd t = .ok r ∧ r.millis.toNat = self.millis.toNat + t.millis.toNat :=
  ⟨_, if_pos h, by rw [UInt64.toNat_add, Nat.mod_eq_of_lt h]⟩

theorem checkedAdd_of_le {self t : MassaTime} (h : 2 ^ 64 ≤ self.millis.toNat + t.millis.toNat) :
    self.checkedAdd t = .error (.checkedOperationError "addition error") :=
  if_neg (not_lt.mpr h)

theorem checkedMul_of_lt {self : MassaTime} {n : UInt64} (h : self.millis.toNat * n.toNat < 2 ^ 64) :
    ∃ r, self.checkedMul n = .ok r ∧ r.millis.toNat = self.millis.toNat * n.toNat :=
  ⟨_, if_pos h, by rw [UInt64.toNat_mul, Nat.mod_eq_of_lt h]⟩

theorem checkedMul_of_le {self : MassaTime} {n : UInt64} (h : 2 ^ 64 ≤ self.millis.toNat * n.toNat) :
    self.checkedMul n = .error (.checkedOperationError "multiplication error") :=
  if_neg (not_lt.mpr h)

theorem checkedDivTime_of_pos {self t : MassaTime} (h : 0 < t.millis.toNat) :
    ∃ q : UInt64, self.checkedDivTime t = .ok q ∧ q.toNat = self.millis.toNat / t.millis.toNat :=
  ⟨_, if_neg (fun h0 => by rw [h0, UInt64.toNat_zero] at h; omega), UInt64.toNat_div _ _⟩

theorem checkedDivU64_of_pos {self : MassaTime} {n : UInt64} (h : 0 < n.toNat) :
    ∃ r, self.checkedDivU64 n = .ok r ∧ r.millis.toNat = self.millis.toNat / n.toNat :=
  ⟨_, if_neg (fun h0 => by rw [h0, UInt64.toNat_zero] at h; omega), UInt64.toNat_div _ _⟩

theorem checkedRemTime_of_pos {self t : MassaTime} (h : 0 < t.millis.toNat) :
    ∃ r, self.checkedRemTime t = .ok r ∧ r.millis.toNat = self.millis.toNat % t.millis.toNat :=
  ⟨_, if_neg (fun h0 => by rw [h0, UInt64.toNat_zero] at h; omega), UInt64.toNat_mod _ _⟩

end MassaTime

end Massa
