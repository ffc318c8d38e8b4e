import Massa.Models.Slot
import Mathlib.Tactic.Ring

/-!
# Slots and times (`massa-models/src/timeslots.rs`)

A period lasts `t0` and is shared by the threads in turn, so a slot lasts
`t0 / thread_count` (`interSlot`), and the slot at position `n` of the slot
sequence (`Slot.index`) starts `n * t0 / thread_count` after genesis.  The
source assumes `thread_count ≥ 1`, `t0 ≥ 1` and `t0 % thread_count = 0`
(`TimingAssumptions`).  Under them:

* `getBlockSlotTimestamp_eq_ok`, `getBlockSlotTimestamp_eq_error` — a slot's
  timestamp is `genesis + interSlot * index`, and an overflow error when that
  does not fit in a `u64`;
* `getLatestBlockSlotAtTimestamp_of_le` — at or after genesis, the latest slot
  at a time is the slot at position `(time - genesis) / interSlot`;
* `timeRangeBoundSlot_eq` — a bound of a time range becomes the slot at
  position `⌈(time - genesis) / interSlot⌉`;
* `slotCountInRange_eq` — the number of slots in a range is the difference of
  the positions, when it fits.

From these, `slotSuccessor_coherent` gathers the laws of the slot successor:
`get_next_slot`, `get_prev_slot`, `slots_since` and `slot_count_in_range`
agree on the positions; and `slotTime_galoisConnection` shows that
`getLatestBlockSlotAtTimestamp` and `getBlockSlotTimestamp` form a Galois
connection between times and slots (`getLatestBlockSlotAtTimestamp_greatest`,
`getLatestBlockSlotAtTimestamp_getBlockSlotTimestamp`), and that the start of a
range is the least slot starting at or after it (`timeRangeToSlotRange_least`).
-/

namespace Massa

/-- `slot_count_in_range`: the number of slots in `[a, b)`, every step
checked. -/
def slotCountInRange (a b : Slot) (threadCount : UInt8) : Except Slot.ModelsError UInt64 :=
  if a.period ≤ b.period then
    let periods := b.period - a.period
    if periods.toNat * threadCount.toNat < 2 ^ 64 then
      let slots := periods * threadCount.toUInt64
      if slots.toNat + b.thread.toNat < 2 ^ 64 then
        let total := slots + b.thread.toUInt64
        if a.thread.toUInt64 ≤ total then .ok (total - a.thread.toUInt64)
        else .error .timeOverflowError
      else .error .timeOverflowError
    else .error .timeOverflowError
  else .error .timeOverflowError

/-- `get_block_slot_timestamp`: every failing step is a `TimeOverflowError`. -/
def getBlockSlotTimestamp (threadCount : UInt8) (t0 genesisTimestamp : MassaTime) (slot : Slot) :
    Except Slot.ModelsError MassaTime := do
  let interSlot ← (t0.checkedDivU64 threadCount.toUInt64).mapError fun _ => .timeOverflowError
  let base ← (interSlot.checkedMul slot.thread.toUInt64).mapError fun _ => .timeOverflowError
  let shift ← (t0.checkedMul slot.period).mapError fun _ => .timeOverflowError
  let withBase ← (genesisTimestamp.checkedAdd base).mapError fun _ => .timeOverflowError
  (withBase.checkedAdd shift).mapError fun _ => .timeOverflowError

/-- `get_latest_block_slot_at_timestamp`: `None` before genesis; a failing
step is a `TimeError`. -/
def getLatestBlockSlotAtTimestamp (threadCount : UInt8) (t0 genesisTimestamp timestamp : MassaTime) :
    Except Slot.ModelsError (Option Slot) :=
  match timestamp.checkedSub genesisTimestamp with
  | .ok timeSinceGenesis => do
    let rem ← (timeSinceGenesis.checkedRemTime t0).mapError .timeError
    let interSlot ← (t0.checkedDivU64 threadCount.toUInt64).mapError .timeError
    -- `as u8`
    let thread ← (rem.checkedDivTime interSlot).mapError .timeError
    let period ← (timeSinceGenesis.checkedDivTime t0).mapError .timeError
    pure (some ⟨period, thread.toUInt8⟩)
  | .error _ => pure none

/-- The slot that `time_range_to_slot_range` computes for one bound of the
range: the number of slot durations to the bound, rounded up, split into a
period and a thread. -/
def timeRangeBoundSlot (threadCount : UInt8) (t0 genesisTimestamp t : MassaTime) :
    Except Slot.ModelsError Slot := do
  let interSlot ← (t0.checkedDivU64 threadCount.toUInt64).mapError .timeError
  let shifted ← ((t.saturatingSub genesisTimestamp).checkedAdd interSlot).mapError .timeError
  let slotNumber ← ((shifted.saturatingSub MassaTime.epsilon).checkedDivTime interSlot).mapError
    .timeError
  -- `checked_div` and `checked_rem` by the thread count
  if threadCount = 0 then throw .timeOverflowError
  let thread := slotNumber % threadCount.toUInt64
  if thread.toNat < 2 ^ 8 then pure ⟨slotNumber / threadCount.toUInt64, thread.toUInt8⟩
  else throw .threadOverflowError

/-- `time_range_to_slot_range`: both bounds are converted alike. -/
def timeRangeToSlotRange (threadCount : UInt8) (t0 genesisTimestamp : MassaTime)
    (startTime endTime : Option MassaTime) :
    Except Slot.ModelsError (Option Slot × Option Slot) := do
  let startSlot ← match startTime with
    | none => pure none
    | some t => some <$> timeRangeBoundSlot threadCount t0 genesisTimestamp t
  let endSlot ← match endTime with
    | none => pure none
    | some t => some <$> timeRangeBoundSlot threadCount t0 genesisTimestamp t
  pure (startSlot, endSlot)

/-- **The slots in a range.**  From `a` to a slot `b` not below it, when
the count fits, `slot_count_in_range` is the difference of the positions. -/
theorem slotCountInRange_eq {threadCount : UInt8} {a b : Slot} (hab : a ≤ b)
    (ha : a.thread.toNat < threadCount.toNat)
    (hfit : (b.period.toNat - a.period.toNat) * threadCount.toNat + b.thread.toNat < 2 ^ 64) :
    ∃ k : UInt64, slotCountInRange a b threadCount = .ok k ∧
      k.toNat = b.index threadCount - a.index threadCount := by
  have hp : a.period.toNat ≤ b.period.toNat := by
    rcases Slot.le_iff.mp hab with h | ⟨h, -⟩ <;> omega
  have hperiods : (b.period - a.period).toNat = b.period.toNat - a.period.toNat :=
    UInt64.toNat_sub_of_le _ _ (UInt64.le_iff_toNat_le.mpr hp)
  have hmul : (b.period.toNat - a.period.toNat) * threadCount.toNat < 2 ^ 64 := by omega
  have hslots : ((b.period - a.period) * threadCount.toUInt64).toNat =
      (b.period.toNat - a.period.toNat) * threadCount.toNat := by
    rw [UInt64.toNat_mul, hperiods, UInt8.toNat_toUInt64, Nat.mod_eq_of_lt hmul]
  have htotal : ((b.period - a.period) * threadCount.toUInt64 + b.thread.toUInt64).toNat =
      (b.period.toNat - a.period.toNat) * threadCount.toNat + b.thread.toNat := by
    rw [UInt64.toNat_add, hslots, UInt8.toNat_toUInt64, Nat.mod_eq_of_lt hfit]
  -- the range covers the thread of `a`, so the last subtraction does not underflow
  have hcover : a.thread.toUInt64 ≤ (b.period - a.period) * threadCount.toUInt64 + b.thread.toUInt64 := by
    rw [UInt64.le_iff_toNat_le, htotal, UInt8.toNat_toUInt64]
    exact Slot.thread_le_of_le hab ha
  rw [slotCountInRange, if_pos (UInt64.le_iff_toNat_le.mpr hp)]
  simp only [hperiods, hslots]
  rw [if_pos hmul, if_pos (by omega), if_pos hcover]
  refine ⟨_, rfl, ?_⟩
  rw [UInt64.toNat_sub_of_le _ _ hcover, htotal, UInt8.toNat_toUInt64, Slot.index_sub_index hab ha]

/-- **Slot successor arithmetic.**  For slots of threads below the thread
count: `get_next_slot` is the immediate successor and fails only past the last
period, `get_prev_slot` undoes it and fails only at `(0, 0)`, and from `a` to a
slot `b` not below it, when the count fits in a `u64`, `slots_since` and
`slot_count_in_range` both give the number of `get_next_slot` steps from `a`
to `b`. -/
theorem slotSuccessor_coherent {threadCount : UInt8} {a b : Slot}
    (ha : a.thread.toNat < threadCount.toNat) (hb : b.thread.toNat < threadCount.toNat) :
    (∀ n, a.getNextSlot threadCount = .ok n →
      n.thread.toNat < threadCount.toNat ∧ a < n ∧
        ∀ t : Slot, t.thread.toNat < threadCount.toNat → (a < t ↔ n ≤ t)) ∧
    ((∃ e, a.getNextSlot threadCount = .error e) ↔
      a.period.toNat = 2 ^ 64 - 1 ∧ a.thread.toNat + 1 = threadCount.toNat) ∧
    (∀ n, a.getNextSlot threadCount = .ok n → n.getPrevSlot threadCount = .ok a) ∧
    (∀ s : Slot, (∃ e, s.getPrevSlot threadCount = .error e) ↔ s = ⟨0, 0⟩) ∧
    (a ≤ b → (b.period.toNat - a.period.toNat) * threadCount.toNat + b.thread.toNat < 2 ^ 64 →
      ∃ k : UInt64, b.slotsSince a threadCount = .ok k ∧
        k.toNat = (b.period.toNat - a.period.toNat) * threadCount.toNat + b.thread.toNat -
          a.thread.toNat ∧
        Slot.iterNextSlot threadCount k.toNat a = .ok b ∧
        (∀ m, Slot.iterNextSlot threadCount m a = .ok b → m = k.toNat) ∧
        slotCountInRange a b threadCount = .ok k) := by
  refine ⟨fun n hn => ?_, Slot.getNextSlot_eq_error_iff ha,
    fun n hn => Slot.getPrevSlot_getNextSlot ha hn, fun s => Slot.getPrevSlot_eq_error_iff,
    fun hab hfit => ?_⟩
  · -- the successor is one position on
    obtain ⟨hidx, hnth⟩ := Slot.getNextSlot_index ha hn
    exact ⟨hnth, (Slot.index_lt_index_iff ha hnth).mp (by omega),
      fun t ht => Slot.lt_iff_getNextSlot_le ha hn ht⟩
  · -- both counts are the difference of the positions, which is the number of steps
    obtain ⟨k, hk, hkv⟩ := Slot.slotsSince_eq hab hfit
    have hsteps : k.toNat = b.index threadCount - a.index threadCount := by
      rw [hkv, Slot.index_sub_index hab ha]
    obtain ⟨k', hk', hk'v⟩ := slotCountInRange_eq hab ha hfit
    have hkk' : k' = k := UInt64.toNat_inj.mp (by omega)
    refine ⟨k, hk, hkv, hsteps ▸ Slot.iterNextSlot_index_sub ha hb hab, fun m hm => ?_,
      hkk' ▸ hk'⟩
    have hm' := (Slot.iterNextSlot_index ha hm).1
    omega

theorem slotSuccessor_coherent_thread_count_32 :
    (Slot.mk 1 3).getNextSlot 32 = .ok ⟨1, 4⟩ ∧ (Slot.mk 1 4).getPrevSlot 32 = .ok ⟨1, 3⟩ ∧
    ∃ k : UInt64, k.toNat = 34 ∧ (Slot.mk 2 5).slotsSince ⟨1, 3⟩ 32 = .ok k ∧
      Slot.iterNextSlot 32 34 ⟨1, 3⟩ = .ok ⟨2, 5⟩ ∧ slotCountInRange ⟨1, 3⟩ ⟨2, 5⟩ 32 = .ok k := by
  have hnext : (Slot.mk 1 3).getNextSlot 32 = .ok ⟨1, 4⟩ := rfl
  obtain ⟨-, -, hprev, -, hcount⟩ :=
    @slotSuccessor_coherent 32 ⟨1, 3⟩ ⟨2, 5⟩ (by decide) (by decide)
  obtain ⟨k, hk, hkv, hsteps, -, hrange⟩ := hcount (by decide) (by decide)
  have hk34 : k.toNat = 34 := by
    rw [hkv]
    rfl
  exact ⟨hnext, hprev _ hnext, k, hk34, hk, hk34 ▸ hsteps, hrange⟩

/-- Past `2 ^ 64` slots the counts overflow while the steps still go on:
with two threads, `2 ^ 64` calls of `get_next_slot` lead from `(0, 0)` to
`(2 ^ 63, 0)`, but `slots_since` and `slot_count_in_range` fail. -/
theorem slotsSince_overflows_before_steps :
    (⟨0, 0⟩ : Slot) ≤ ⟨UInt64.ofNat (2 ^ 63), 0⟩ ∧
    Slot.iterNextSlot 2 (2 ^ 64) ⟨0, 0⟩ = .ok ⟨UInt64.ofNat (2 ^ 63), 0⟩ ∧
    (Slot.mk (UInt64.ofNat (2 ^ 63)) 0).slotsSince ⟨0, 0⟩ 2 = .error .periodOverflowError ∧
    slotCountInRange ⟨0, 0⟩ ⟨UInt64.ofNat (2 ^ 63), 0⟩ 2 = .error .timeOverflowError := by
  have hle : (⟨0, 0⟩ : Slot) ≤ ⟨UInt64.ofNat (2 ^ 63), 0⟩ := by decide
  have hsteps : Slot.iterNextSlot 2 ((Slot.mk (UInt64.ofNat (2 ^ 63)) 0).index 2 -
      (Slot.mk 0 0).index 2) ⟨0, 0⟩ = .ok ⟨UInt64.ofNat (2 ^ 63), 0⟩ :=
    Slot.iterNextSlot_index_sub (by decide) (by decide) hle
  have hcount : (Slot.mk (UInt64.ofNat (2 ^ 63)) 0).index 2 - (Slot.mk 0 0).index 2 = 2 ^ 64 := by
    decide
  rw [hcount] at hsteps
  exact ⟨hle, hsteps, rfl, rfl⟩

/-- The assumptions of `timeslots.rs`: `thread_count ≥ 1`, `t0 ≥ 1` and
`t0 % thread_count == 0`. -/
def TimingAssumptions (threadCount : UInt8) (t0 : MassaTime) : Prop :=
  1 ≤ threadCount.toNat ∧ 1 ≤ t0.millis.toNat ∧ t0.millis.toNat % threadCount.toNat = 0

instance (threadCount : UInt8) (t0 : MassaTime) : Decidable (TimingAssumptions threadCount t0) :=
  inferInstanceAs (Decidable (_ ∧ _ ∧ _))

/-- The duration of a slot, `t0 / thread_count`. -/
def interSlot (threadCount : UInt8) (t0 : MassaTime) : ℕ := t0.millis.toNat / threadCount.toNat

namespace TimingAssumptions

variable {threadCount : UInt8} {t0 : MassaTime}

theorem interSlot_mul (h : TimingAssumptions threadCount t0) :
    interSlot threadCount t0 * threadCount.toNat = t0.millis.toNat :=
  Nat.div_mul_cancel (Nat.dvd_of_mod_eq_zero h.2.2)

theorem interSlot_pos (h : TimingAssumptions threadCount t0) : 0 < interSlot threadCount t0 := by
  have hmul := h.interSlot_mul
  rcases Nat.eq_zero_or_pos (interSlot threadCount t0) with h0 | hpos
  · rw [h0, zero_mul] at hmul
    have := h.2.1
    omega
  · exact hpos

end TimingAssumptions

section Timestamps

variable {threadCount : UInt8} {t0 genesisTimestamp : MassaTime}

/-- The start of the slot at position `n`: `n` slot durations after genesis,
that is `period * t0 + thread * interSlot`. -/
theorem interSlot_mul_index (h : TimingAssumptions threadCount t0) (slot : Slot) :
    interSlot threadCount t0 * slot.index threadCount =
      t0.millis.toNat * slot.period.toNat + interSlot threadCount t0 * slot.thread.toNat := by
  rw [Slot.index, ← h.interSlot_mul]
  ring

/-- A thread's offset within its period is below `t0`. -/
theorem interSlot_mul_thread_le (h : TimingAssumptions threadCount t0) {slot : Slot}
    (hs : slot.thread.toNat < threadCount.toNat) :
    interSlot threadCount t0 * slot.thread.toNat ≤ t0.millis.toNat := by
  rw [← h.interSlot_mul]
  exact Nat.mul_le_mul_left _ hs.le

/-- The first two steps of `get_block_slot_timestamp` never fail: the slot
duration, and the offset of the thread within its period. -/
theorem getBlockSlotTimestamp_base (h : TimingAssumptions threadCount t0) {slot : Slot}
    (hs : slot.thread.toNat < threadCount.toNat) :
    ∃ inter base, t0.checkedDivU64 threadCount.toUInt64 = .ok inter ∧
      inter.checkedMul slot.thread.toUInt64 = .ok base ∧
      base.millis.toNat = interSlot threadCount t0 * slot.thread.toNat := by
  have hT : 0 < threadCount.toUInt64.toNat := by
    rw [UInt8.toNat_toUInt64]
    exact h.1
  obtain ⟨inter, hinter, hinterv⟩ := @MassaTime.checkedDivU64_of_pos t0 _ hT
  have hinterv' : inter.millis.toNat = interSlot threadCount t0 := by
    rw [hinterv, UInt8.toNat_toUInt64]
    rfl
  have hbaseLe := interSlot_mul_thread_le h hs
  have ht0 := t0.millis.toNat_lt
  obtain ⟨base, hbase, hbasev⟩ := @MassaTime.checkedMul_of_lt inter slot.thread.toUInt64
    (by rw [hinterv', UInt8.toNat_toUInt64]; omega)
  rw [hinterv', UInt8.toNat_toUInt64] at hbasev
  exact ⟨inter, base, hinter, hbase, hbasev⟩

/-- **The timestamp of a slot** that fits in a `u64`. -/
theorem getBlockSlotTimestamp_eq_ok (h : TimingAssumptions threadCount t0) {slot : Slot}
    (hs : slot.thread.toNat < threadCount.toNat)
    (hfit : genesisTimestamp.millis.toNat + interSlot threadCount t0 * slot.index threadCount <
      2 ^ 64) :
    ∃ x, getBlockSlotTimestamp threadCount t0 genesisTimestamp slot = .ok x ∧
      x.millis.toNat =
        genesisTimestamp.millis.toNat + interSlot threadCount t0 * slot.index threadCount := by
  have hidx := interSlot_mul_index h slot
  obtain ⟨inter, base, hinter, hbase, hbasev⟩ := getBlockSlotTimestamp_base h hs
  obtain ⟨shift, hshift, hshiftv⟩ := @MassaTime.checkedMul_of_lt t0 slot.period (by omega)
  obtain ⟨withBase, hwithBase, hwithBasev⟩ :=
    @MassaTime.checkedAdd_of_lt genesisTimestamp base (by omega)
  obtain ⟨x, hx, hxv⟩ := @MassaTime.checkedAdd_of_lt withBase shift (by omega)
  refine ⟨x, ?_, by omega⟩
  simp only [getBlockSlotTimestamp, hinter, Except.mapError, Except.ok_bind, hbase, hshift,
    hwithBase, hx]

/-- A slot whose timestamp does not fit in a `u64` has none: one of the last
three steps overflows. -/
theorem getBlockSlotTimestamp_eq_error (h : TimingAssumptions threadCount t0) {slot : Slot}
    (hs : slot.thread.toNat < threadCount.toNat)
    (hover : 2 ^ 64 ≤
      genesisTimestamp.millis.toNat + interSlot threadCount t0 * slot.index threadCount) :
    getBlockSlotTimestamp threadCount t0 genesisTimestamp slot = .error .timeOverflowError := by
  have hidx := interSlot_mul_index h slot
  obtain ⟨inter, base, hinter, hbase, hbasev⟩ := getBlockSlotTimestamp_base h hs
  by_cases hshiftFit : t0.millis.toNat * slot.period.toNat < 2 ^ 64
  · obtain ⟨shift, hshift, hshiftv⟩ := @MassaTime.checkedMul_of_lt t0 slot.period hshiftFit
    by_cases hbaseFit : genesisTimestamp.millis.toNat + base.millis.toNat < 2 ^ 64
    · obtain ⟨withBase, hwithBase, hwithBasev⟩ :=
        @MassaTime.checkedAdd_of_lt genesisTimestamp base hbaseFit
      -- the last addition overflows
      have hlast := @MassaTime.checkedAdd_of_le withBase shift (by omega)
      simp only [getBlockSlotTimestamp, hinter, Except.mapError, Except.ok_bind, hbase, hshift,
        hwithBase, hlast]
    · have hadd := @MassaTime.checkedAdd_of_le genesisTimestamp base (by omega)
      simp only [getBlockSlotTimestamp, hinter, Except.mapError, Except.ok_bind, hbase, hshift,
        hadd]
      rfl
  · have hmul := @MassaTime.checkedMul_of_le t0 slot.period (by omega)
    simp only [getBlockSlotTimestamp, hinter, Except.mapError, Except.ok_bind, hbase, hmul]
    rfl

/-- A computed timestamp is `genesis + interSlot * index`. -/
theorem toNat_of_getBlockSlotTimestamp (h : TimingAssumptions threadCount t0) {slot : Slot}
    (hs : slot.thread.toNat < threadCount.toNat) {x : MassaTime}
    (hx : getBlockSlotTimestamp threadCount t0 genesisTimestamp slot = .ok x) :
    x.millis.toNat =
      genesisTimestamp.millis.toNat + interSlot threadCount t0 * slot.index threadCount := by
  by_cases hfit : genesisTimestamp.millis.toNat + interSlot threadCount t0 * slot.index threadCount <
      2 ^ 64
  · obtain ⟨y, hy, hyv⟩ := getBlockSlotTimestamp_eq_ok h hs hfit
    rw [hy] at hx
    cases hx
    exact hyv
  · rw [getBlockSlotTimestamp_eq_error h hs (not_lt.mp hfit)] at hx
    cases hx

/-! ### From times to slots -/

/-- Counting slot durations is counting periods, then the slot durations
left in the last period. -/
theorem div_interSlot_eq (h : TimingAssumptions threadCount t0) (d : ℕ) :
    d / interSlot threadCount t0 =
      d / t0.millis.toNat * threadCount.toNat + d % t0.millis.toNat / interSlot threadCount t0 := by
  have hsplit : d = d % t0.millis.toNat +
      interSlot threadCount t0 * (threadCount.toNat * (d / t0.millis.toNat)) := by
    rw [← Nat.mul_assoc, h.interSlot_mul]
    exact (Nat.mod_add_div d _).symm
  conv_lhs => rw [hsplit]
  rw [Nat.add_mul_div_left _ _ h.interSlot_pos, Nat.mul_comm threadCount.toNat, Nat.add_comm]

/-- What is left of a period holds fewer than `thread_count` slot durations. -/
theorem mod_div_interSlot_lt (h : TimingAssumptions threadCount t0) (d : ℕ) :
    d % t0.millis.toNat / interSlot threadCount t0 < threadCount.toNat := by
  rw [Nat.div_lt_iff_lt_mul h.interSlot_pos, Nat.mul_comm, h.interSlot_mul]
  exact Nat.mod_lt _ (by have := h.2.1; omega)

/-- Before genesis there is no latest slot. -/
theorem getLatestBlockSlotAtTimestamp_of_lt {timestamp : MassaTime}
    (hlt : timestamp < genesisTimestamp) :
    getLatestBlockSlotAtTimestamp threadCount t0 genesisTimestamp timestamp = .ok none := by
  rw [getLatestBlockSlotAtTimestamp, MassaTime.checkedSub_of_lt hlt]
  rfl

/-- **The latest slot.**  At or after genesis, the latest slot at a time is
the slot at position `(time - genesis) / interSlot`. -/
theorem getLatestBlockSlotAtTimestamp_of_le (h : TimingAssumptions threadCount t0)
    {timestamp : MassaTime} (hle : genesisTimestamp ≤ timestamp) :
    ∃ s, getLatestBlockSlotAtTimestamp threadCount t0 genesisTimestamp timestamp = .ok (some s) ∧
      s.thread.toNat < threadCount.toNat ∧
      s.index threadCount =
        (timestamp.millis.toNat - genesisTimestamp.millis.toNat) / interSlot threadCount t0 := by
  have ht0 : 0 < t0.millis.toNat := h.2.1
  have hT : 0 < threadCount.toUInt64.toNat := by
    rw [UInt8.toNat_toUInt64]
    exact h.1
  obtain ⟨d, hd, hdv⟩ := MassaTime.checkedSub_of_le hle
  obtain ⟨rem, hrem, hremv⟩ := @MassaTime.checkedRemTime_of_pos d t0 ht0
  obtain ⟨inter, hinter, hinterv⟩ := @MassaTime.checkedDivU64_of_pos t0 _ hT
  have hinterv' : inter.millis.toNat = interSlot threadCount t0 := by
    rw [hinterv, UInt8.toNat_toUInt64]
    rfl
  obtain ⟨thread, hthread, hthreadv⟩ :=
    @MassaTime.checkedDivTime_of_pos rem inter (by rw [hinterv']; exact h.interSlot_pos)
  obtain ⟨period, hperiod, hperiodv⟩ := @MassaTime.checkedDivTime_of_pos d t0 ht0
  rw [hremv, hinterv'] at hthreadv
  -- the thread fits in a byte
  have hlt := mod_div_interSlot_lt h d.millis.toNat
  have hbyte : thread.toUInt8.toNat = thread.toNat := by
    rw [UInt64.toNat_toUInt8, Nat.mod_eq_of_lt (by have := threadCount.toNat_lt; omega)]
  refine ⟨⟨period, thread.toUInt8⟩, ?_, by simp only [hbyte]; omega, ?_⟩
  · simp only [getLatestBlockSlotAtTimestamp, hd, hrem, Except.mapError, Except.ok_bind, hinter,
      hthread, hperiod]
    rfl
  · rw [Slot.index, hbyte, hthreadv, hperiodv, ← hdv]
    exact (div_interSlot_eq h _).symm

/-- **A bound of a time range.**  A time becomes the slot at position
`⌈(t - genesis) / interSlot⌉` (zero before genesis), when the time since
genesis plus a slot duration fits in a `u64`. -/
theorem timeRangeBoundSlot_eq (h : TimingAssumptions threadCount t0) {t : MassaTime}
    (hfit : t.millis.toNat - genesisTimestamp.millis.toNat + interSlot threadCount t0 < 2 ^ 64) :
    ∃ s, timeRangeBoundSlot threadCount t0 genesisTimestamp t = .ok s ∧
      s.thread.toNat < threadCount.toNat ∧
      s.index threadCount = (t.millis.toNat - genesisTimestamp.millis.toNat +
        interSlot threadCount t0 - 1) / interSlot threadCount t0 := by
  have hpos := h.interSlot_pos
  have hT : 0 < threadCount.toUInt64.toNat := by
    rw [UInt8.toNat_toUInt64]
    exact h.1
  obtain ⟨inter, hinter, hinterv⟩ := @MassaTime.checkedDivU64_of_pos t0 _ hT
  have hinterv' : inter.millis.toNat = interSlot threadCount t0 := by
    rw [hinterv, UInt8.toNat_toUInt64]
    rfl
  have hsub := MassaTime.toNat_saturatingSub t genesisTimestamp
  obtain ⟨shifted, hshifted, hshiftedv⟩ :=
    @MassaTime.checkedAdd_of_lt (t.saturatingSub genesisTimestamp) inter (by omega)
  obtain ⟨slotNumber, hslotNumber, hslotNumberv⟩ :=
    @MassaTime.checkedDivTime_of_pos (shifted.saturatingSub MassaTime.epsilon) inter (by omega)
  rw [MassaTime.toNat_saturatingSub, hshiftedv, hsub, hinterv'] at hslotNumberv
  have hT0 : threadCount ≠ 0 := fun h0 => by
    rw [h0] at hT
    exact absurd hT (by decide)
  have hthread : (slotNumber % threadCount.toUInt64).toNat < threadCount.toNat := by
    rw [UInt64.toNat_mod, UInt8.toNat_toUInt64]
    exact Nat.mod_lt _ h.1
  have hbyte : (slotNumber % threadCount.toUInt64).toNat < 2 ^ 8 := by
    have := threadCount.toNat_lt
    omega
  have hthreadByte : (slotNumber % threadCount.toUInt64).toUInt8.toNat =
      (slotNumber % threadCount.toUInt64).toNat := by
    rw [UInt64.toNat_toUInt8, Nat.mod_eq_of_lt hbyte]
  refine ⟨⟨slotNumber / threadCount.toUInt64, (slotNumber % threadCount.toUInt64).toUInt8⟩, ?_,
    by simp only [hthreadByte]; exact hthread, ?_⟩
  · simp only [timeRangeBoundSlot, hinter, Except.mapError, Except.ok_bind, hshifted,
      hslotNumber, if_neg hT0, if_pos hbyte]
    rfl
  · rw [Slot.index, hthreadByte, UInt64.toNat_div, UInt64.toNat_mod, UInt8.toNat_toUInt64,
      Nat.div_add_mod', hslotNumberv]
    rfl

/-! ### The Galois connection -/

/-- A slot whose computed timestamp is at or before a time `ts` lies at most
`(ts - genesis) / interSlot` positions on. -/
theorem index_le_of_getBlockSlotTimestamp_le (h : TimingAssumptions threadCount t0) {s : Slot}
    (hs : s.thread.toNat < threadCount.toNat) {x ts : MassaTime}
    (hx : getBlockSlotTimestamp threadCount t0 genesisTimestamp s = .ok x) (hle : x ≤ ts) :
    s.index threadCount ≤
      (ts.millis.toNat - genesisTimestamp.millis.toNat) / interSlot threadCount t0 := by
  have hxv := toNat_of_getBlockSlotTimestamp h hs hx
  rw [MassaTime.le_iff] at hle
  rw [Nat.le_div_iff_mul_le h.interSlot_pos, Nat.mul_comm]
  omega

/-- A slot whose computed timestamp is at or after a time `t` lies at least
`⌈(t - genesis) / interSlot⌉` positions on. -/
theorem ceil_le_index_of_le_getBlockSlotTimestamp (h : TimingAssumptions threadCount t0)
    {s : Slot} (hs : s.thread.toNat < threadCount.toNat) {x t : MassaTime}
    (hx : getBlockSlotTimestamp threadCount t0 genesisTimestamp s = .ok x) (hle : t ≤ x) :
    (t.millis.toNat - genesisTimestamp.millis.toNat + interSlot threadCount t0 - 1) /
      interSlot threadCount t0 ≤ s.index threadCount := by
  have hxv := toNat_of_getBlockSlotTimestamp h hs hx
  have hpos := h.interSlot_pos
  rw [MassaTime.le_iff] at hle
  -- the rounded-up quotient is below `index + 1`
  have hlt : (t.millis.toNat - genesisTimestamp.millis.toNat + interSlot threadCount t0 - 1) /
      interSlot threadCount t0 < s.index threadCount + 1 := by
    rw [Nat.div_lt_iff_lt_mul hpos, Nat.succ_mul, Nat.mul_comm]
    omega
  omega

/-- **The latest slot is the greatest.**  At or after genesis, the latest
slot at `ts` has a timestamp at or before `ts`, and every slot whose
timestamp is at or before `ts` is not above it. -/
theorem getLatestBlockSlotAtTimestamp_greatest (h : TimingAssumptions threadCount t0)
    {ts : MassaTime} (hle : genesisTimestamp ≤ ts) :
    ∃ s, getLatestBlockSlotAtTimestamp threadCount t0 genesisTimestamp ts = .ok (some s) ∧
      s.thread.toNat < threadCount.toNat ∧
      (∃ x, getBlockSlotTimestamp threadCount t0 genesisTimestamp s = .ok x ∧ x ≤ ts) ∧
      ∀ s' : Slot, s'.thread.toNat < threadCount.toNat → ∀ x',
        getBlockSlotTimestamp threadCount t0 genesisTimestamp s' = .ok x' → x' ≤ ts → s' ≤ s := by
  obtain ⟨s, hs, hsth, hsidx⟩ := getLatestBlockSlotAtTimestamp_of_le h hle
  rw [MassaTime.le_iff] at hle
  -- the slot starts at or before `ts`, so its timestamp fits
  have hstart : interSlot threadCount t0 * s.index threadCount ≤
      ts.millis.toNat - genesisTimestamp.millis.toNat := by
    rw [hsidx]
    exact Nat.mul_div_le _ _
  have hts := ts.millis.toNat_lt
  have hfit : genesisTimestamp.millis.toNat + interSlot threadCount t0 * s.index threadCount <
      2 ^ 64 := by omega
  obtain ⟨x, hx, hxv⟩ := getBlockSlotTimestamp_eq_ok h hsth hfit
  refine ⟨s, hs, hsth, ⟨x, hx, by rw [MassaTime.le_iff]; omega⟩, ?_⟩
  intro s' hs' x' hx' hle'
  rw [← Slot.index_le_index_iff hs' hsth, hsidx]
  exact index_le_of_getBlockSlotTimestamp_le h hs' hx' hle'

/-- **The start of a range is the least slot.**  The slot that
`time_range_to_slot_range` computes for a start time `t`, whatever the end
argument, has a timestamp at or after `t`, and no slot whose timestamp is at
or after `t` is below it, when `t` is before genesis or `t` plus a slot
duration fits in a `u64`.  The call then fails only when the end bound does. -/
theorem timeRangeToSlotRange_least (h : TimingAssumptions threadCount t0) {t : MassaTime}
    (hfit : t < genesisTimestamp ∨ t.millis.toNat + interSlot threadCount t0 < 2 ^ 64) :
    ∃ s, (∀ endTime, timeRangeToSlotRange threadCount t0 genesisTimestamp (some t) endTime =
        (timeRangeToSlotRange threadCount t0 genesisTimestamp none endTime).map
          fun range => (some s, range.2)) ∧
      s.thread.toNat < threadCount.toNat ∧
      (∃ x, getBlockSlotTimestamp threadCount t0 genesisTimestamp s = .ok x ∧ t ≤ x) ∧
      ∀ s' : Slot, s'.thread.toNat < threadCount.toNat → ∀ x',
        getBlockSlotTimestamp threadCount t0 genesisTimestamp s' = .ok x' → t ≤ x' → s ≤ s' := by
  have hpos := h.interSlot_pos
  have hinter : interSlot threadCount t0 ≤ t0.millis.toNat := Nat.div_le_self _ _
  have ht0 := t0.millis.toNat_lt
  have hg := genesisTimestamp.millis.toNat_lt
  rw [MassaTime.lt_iff] at hfit
  have hcomp : t.millis.toNat - genesisTimestamp.millis.toNat + interSlot threadCount t0 <
      2 ^ 64 := by omega
  obtain ⟨s, hs, hsth, hsidx⟩ := timeRangeBoundSlot_eq h hcomp
  -- the rounded-up number of slot durations reaches `t` and overshoots it by less than one
  have hq := Nat.div_add_mod
    (t.millis.toNat - genesisTimestamp.millis.toNat + interSlot threadCount t0 - 1)
    (interSlot threadCount t0)
  have hr := Nat.mod_lt
    (t.millis.toNat - genesisTimestamp.millis.toNat + interSlot threadCount t0 - 1) hpos
  rw [← hsidx] at hq
  have hfitTs : genesisTimestamp.millis.toNat + interSlot threadCount t0 * s.index threadCount <
      2 ^ 64 := by
    by_cases hbefore : t.millis.toNat < genesisTimestamp.millis.toNat
    · -- before genesis the bound is the first slot
      have hzero : s.index threadCount = 0 := by
        rw [hsidx, Nat.sub_eq_zero_of_le hbefore.le, Nat.zero_add]
        exact Nat.div_eq_of_lt (by omega)
      rw [hzero, Nat.mul_zero]
      omega
    · have hafter := hfit.resolve_left hbefore
      omega
  obtain ⟨x, hx, hxv⟩ := getBlockSlotTimestamp_eq_ok h hsth hfitTs
  refine ⟨s, fun endTime => ?_, hsth, ⟨x, hx, by rw [MassaTime.le_iff]; omega⟩, ?_⟩
  · -- the start bound is converted on its own, before the end bound
    cases endTime with
    | none => simp only [timeRangeToSlotRange, hs]; rfl
    | some e =>
      cases he : timeRangeBoundSlot threadCount t0 genesisTimestamp e <;>
        simp only [timeRangeToSlotRange, hs, he] <;> rfl
  · intro s' hs' x' hx' hle'
    rw [← Slot.index_le_index_iff hsth hs', hsidx]
    exact ceil_le_index_of_le_getBlockSlotTimestamp h hs' hx' hle'

/-- **Round trip.**  The latest slot at the timestamp of a slot is that
slot. -/
theorem getLatestBlockSlotAtTimestamp_getBlockSlotTimestamp (h : TimingAssumptions threadCount t0)
    {s : Slot} (hs : s.thread.toNat < threadCount.toNat) {x : MassaTime}
    (hx : getBlockSlotTimestamp threadCount t0 genesisTimestamp s = .ok x) :
    getLatestBlockSlotAtTimestamp threadCount t0 genesisTimestamp x = .ok (some s) := by
  have hxv := toNat_of_getBlockSlotTimestamp h hs hx
  have hle : genesisTimestamp ≤ x := by
    rw [MassaTime.le_iff]
    omega
  obtain ⟨s', hs', hs'th, hs'idx⟩ := getLatestBlockSlotAtTimestamp_of_le h hle
  have hidx : s'.index threadCount = s.index threadCount := by
    rw [hs'idx, hxv, Nat.add_sub_cancel_left, Nat.mul_div_cancel_left _ h.interSlot_pos]
  rw [hs', Slot.eq_of_index_eq hs'th hs hidx]

/-- **Slots and times form a Galois connection.**  Under the assumptions of
`timeslots.rs`: the latest slot at a time is `None` exactly before genesis and
otherwise the greatest slot whose timestamp is at or before the time; the
start slot of a time range, whatever its end, is the least slot whose
timestamp is at or after its start, when that time is before genesis or a slot
duration after it fits in a `u64`; and the latest slot at the timestamp of a
slot is that slot. -/
theorem slotTime_galoisConnection (h : TimingAssumptions threadCount t0) :
    (∀ ts : MassaTime,
      (getLatestBlockSlotAtTimestamp threadCount t0 genesisTimestamp ts = .ok none ↔
        ts < genesisTimestamp) ∧
      (genesisTimestamp ≤ ts →
        ∃ s, getLatestBlockSlotAtTimestamp threadCount t0 genesisTimestamp ts = .ok (some s) ∧
          s.thread.toNat < threadCount.toNat ∧
          (∃ x, getBlockSlotTimestamp threadCount t0 genesisTimestamp s = .ok x ∧ x ≤ ts) ∧
          ∀ s' : Slot, s'.thread.toNat < threadCount.toNat → ∀ x',
            getBlockSlotTimestamp threadCount t0 genesisTimestamp s' = .ok x' → x' ≤ ts →
              s' ≤ s)) ∧
    (∀ t : MassaTime, t < genesisTimestamp ∨ t.millis.toNat + interSlot threadCount t0 < 2 ^ 64 →
      ∃ s, (∀ endTime, timeRangeToSlotRange threadCount t0 genesisTimestamp (some t) endTime =
          (timeRangeToSlotRange threadCount t0 genesisTimestamp none endTime).map
            fun range => (some s, range.2)) ∧
        s.thread.toNat < threadCount.toNat ∧
        (∃ x, getBlockSlotTimestamp threadCount t0 genesisTimestamp s = .ok x ∧ t ≤ x) ∧
        ∀ s' : Slot, s'.thread.toNat < threadCount.toNat → ∀ x',
          getBlockSlotTimestamp threadCount t0 genesisTimestamp s' = .ok x' → t ≤ x' → s ≤ s') ∧
    (∀ s : Slot, s.thread.toNat < threadCount.toNat → ∀ x,
      getBlockSlotTimestamp threadCount t0 genesisTimestamp s = .ok x →
        getLatestBlockSlotAtTimestamp threadCount t0 genesisTimestamp x = .ok (some s)) := by
  refine ⟨fun ts => ⟨⟨fun hnone => ?_, getLatestBlockSlotAtTimestamp_of_lt⟩,
    getLatestBlockSlotAtTimestamp_greatest h⟩, fun t hfit => timeRangeToSlotRange_least h hfit,
    fun s hs x hx => getLatestBlockSlotAtTimestamp_getBlockSlotTimestamp h hs hx⟩
  -- at or after genesis there is a latest slot
  by_contra hnot
  obtain ⟨s, hs, -⟩ := getLatestBlockSlotAtTimestamp_greatest h (not_lt.mp hnot)
  rw [hs] at hnone
  cases hnone

theorem slotTime_galoisConnection_thread_count_32 :
    TimingAssumptions 32 ⟨16000⟩ ∧
    getLatestBlockSlotAtTimestamp 32 ⟨16000⟩ ⟨1000⟩ ⟨500⟩ = .ok none ∧
    getLatestBlockSlotAtTimestamp 32 ⟨16000⟩ ⟨1000⟩ ⟨17500⟩ = .ok (some ⟨1, 1⟩) ∧
    ∃ s, timeRangeToSlotRange 32 ⟨16000⟩ ⟨1000⟩ (some ⟨17200⟩) none = .ok (some s, none) ∧
      ∀ s' : Slot, s'.thread.toNat < (32 : UInt8).toNat → ∀ x',
        getBlockSlotTimestamp 32 ⟨16000⟩ ⟨1000⟩ s' = .ok x' → (⟨17200⟩ : MassaTime) ≤ x' →
          s ≤ s' := by
  have h : TimingAssumptions 32 ⟨16000⟩ := by decide
  obtain ⟨hlatest, hrange, hround⟩ := @slotTime_galoisConnection 32 ⟨16000⟩ ⟨1000⟩ h
  obtain ⟨s, hs, -, -, hleast⟩ := hrange ⟨17200⟩ (.inr (by decide))
  exact ⟨h, ((hlatest ⟨500⟩).1).mpr (by decide), hround ⟨1, 1⟩ (by decide) ⟨17500⟩ rfl,
    s, hs none, hleast⟩

end Timestamps


end Massa
