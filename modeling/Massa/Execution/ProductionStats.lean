import Massa.Execution.SpeculativeRollState
import Mathlib

/-!
# Production statistics of a cycle (`get_production_stats_at_cycle`, `find_cycle_indices`)

At the end of a cycle the execution reads the block production statistics of
the cycle through three layers: the outputs of the active history whose slots
are in the cycle, the PoS changes of the slot being executed, and the final
state's statistics of the cycle.  `ActiveHistory::find_cycle_indices` locates
the cycle in the history from the history positions of its first and last
slots (`get_slot_index`), and reports whether the cycle begins before the
history (`underflow`) and ends after it (`overflow`); the final state and the
current slot fill those two sides.  The result is marked complete when both
sides were filled.

`get_slot_index` counts the slots since the first history slot with
`slots_since`, and reads an overflow of that count as a slot in the past.
When the history follows the last final slot one slot at a time and the
current slot follows the history (`ActiveHistory.FollowsFinal`), positions
(`Slot.index`) place everything:

* `FollowsFinal.findCycleIndices_covers_cycle` — for a cycle whose positions
  fit in a `u64`, the range of `find_cycle_indices` holds exactly the indices
  of the outputs in the cycle, `underflow` says that a slot of the cycle
  comes before the history and `overflow` that one comes after it;
* `getProductionStatsAtCycle_full_counts` — a result reported complete totals
  (`totalAt`) the final statistics of the cycle, its history outputs and the
  current slot, each counted once and only when in the cycle, and the cycle
  is over;
* `getProductionStatsAtCycle_of_slotsSince_overflow` — for a cycle so long
  that the count overflows, the cycle is taken to end before the history: the
  history is left out, and the result is reported complete.
-/

namespace Massa

/-! ### The model -/

/-- `SlotIndexPosition`. -/
inductive SlotIndexPosition where
  | past
  | future
  | found (idx : ℕ)
  | noHistory
  deriving DecidableEq, Repr

namespace ActiveHistory

/-- `ActiveHistory::get_slot_index`: the position of `slot` in the history,
counted with `slots_since` from the first output.  An overflow of the count is
read as the past; the count always fits a 64-bit `usize`. -/
def getSlotIndex (self : ActiveHistory) (slot : Slot) (threadCount : UInt8) :
    SlotIndexPosition :=
  match self.outputs with
  | [] => .noHistory
  | first :: _ =>
    if slot < first.slot then .past
    else
      match slot.slotsSince first.slot threadCount with
      | .error _ => .past
      | .ok d => if self.outputs.length ≤ d.toNat then .future else .found d.toNat

/-- `ActiveHistory::find_cycle_indices`: the range of history indices of the
cycle, whether it begins before the history, and whether it ends after it.
An overflow of the first or last slot of the cycle counts as the future.
`idx.saturating_add(1)` does not saturate, `idx` being an index of the
history. -/
def findCycleIndices (self : ActiveHistory) (cycle periodsPerCycle : UInt64)
    (threadCount : UInt8) : (ℕ × ℕ) × Bool × Bool :=
  let firstIndex : SlotIndexPosition := match Slot.newFirstOfCycle cycle periodsPerCycle with
    | .error _ => .future
    | .ok s => self.getSlotIndex s threadCount
  let lastIndex : SlotIndexPosition := match Slot.newLastOfCycle cycle periodsPerCycle threadCount with
    | .error _ => .future
    | .ok s => self.getSlotIndex s threadCount
  match firstIndex, lastIndex with
  | .noHistory, _ => ((0, 0), true, true)
  | _, .noHistory => ((0, 0), true, true)
  | .future, _ => ((0, 0), false, true)
  | _, .past => ((0, 0), true, false)
  | .past, .future => ((0, self.outputs.length), true, true)
  | .past, .found idx => ((0, idx + 1), true, false)
  | .found idx, .future => ((idx, self.outputs.length), false, true)
  | .found idx1, .found idx2 => ((idx1, idx2 + 1), false, false)

/-- `hist.0[idx]`, which panics out of bounds. -/
def outputAt (self : ActiveHistory) (idx : ℕ) : Except String ExecutionOutput :=
  match self.outputs[idx]? with
  | some output => .ok output
  | none => .error "Out of bounds access"

end ActiveHistory

/-- Adding statistics into an accumulator, address by address:
`entry(addr).and_modify(|cur| cur.extend(stats)).or_insert_with(|| *stats)`. -/
def accumulateStats (acc stats : SortedMap Address ProductionStats) :
    SortedMap Address ProductionStats :=
  stats.entries.foldl (fun acc e =>
    acc.insert e.1 (match acc.get? e.1 with
      | some cur => cur.extend e.2
      | none => e.2)) acc

namespace ActiveHistory

/-- One turn of the history loop of `get_production_stats_at_cycle`: the
statistics of the output at `idx` added in. -/
def accumulateOutput (self : ActiveHistory) (acc : SortedMap Address ProductionStats)
    (idx : ℕ) : Except String (SortedMap Address ProductionStats) := do
  let item ← self.outputAt idx
  pure (accumulateStats acc item.stateChanges.posChanges.productionStats)

/-- The history loop, `for idx in range`, from an empty accumulator. -/
def accumulateRange (self : ActiveHistory) (range : ℕ × ℕ) :
    Except String (SortedMap Address ProductionStats) :=
  (List.range' range.1 (range.2 - range.1)).foldlM self.accumulateOutput ∅

end ActiveHistory

namespace SpeculativeRollState

/-- "on overflow, accumulate added changes": the added changes are counted when
the current slot is in the cycle and not past its last slot, and the overflow
is cleared at the last slot. -/
def accumulateAdded (self : SpeculativeRollState) (cycle periodsPerCycle : UInt64)
    (threadCount : UInt8) (curSlot : Slot) (acc : SortedMap Address ProductionStats)
    (overflow : Bool) : Except String (SortedMap Address ProductionStats × Bool) :=
  if overflow then do
    let curCycle ← curSlot.getCycle periodsPerCycle
    if curCycle = cycle then do
      let lastSlot ← match Slot.newLastOfCycle cycle periodsPerCycle threadCount with
        | .ok s => pure s
        | .error e => throw ("could not get last slot of cycle: " ++ e.debug)
      if curSlot ≤ lastSlot then
        pure (accumulateStats acc self.addedChanges.productionStats,
          if curSlot = lastSlot then false else overflow)
      else pure (acc, overflow)
    else pure (acc, overflow)
  else pure (acc, overflow)

/-- "on underflow, accumulate final state": the final state's statistics of
the cycle, when it has them, clear the underflow. -/
def accumulateFinal (finalProductionStats : Option (SortedMap Address ProductionStats))
    (acc : SortedMap Address ProductionStats) (underflow : Bool) :
    SortedMap Address ProductionStats × Bool :=
  if underflow then
    match finalProductionStats with
    | some finalStats => (accumulateStats acc finalStats, false)
    | none => (acc, underflow)
  else (acc, underflow)

/-- `SpeculativeRollState::get_production_stats_at_cycle`: the statistics of
the history outputs of the cycle, then those of the added changes when the
cycle reaches past the history and the current slot is in it, then the final
state's when the cycle begins before the history; the flag says that both
sides were filled.  `finalProductionStats` is what the final state's
`get_all_production_stats(cycle)` returns. -/
def getProductionStatsAtCycle (self : SpeculativeRollState)
    (finalProductionStats : Option (SortedMap Address ProductionStats))
    (cycle periodsPerCycle : UInt64) (threadCount : UInt8) (curSlot : Slot) :
    Except String (SortedMap Address ProductionStats × Bool) := do
  let (range, underflow, overflow) :=
    self.activeHistory.findCycleIndices cycle periodsPerCycle threadCount
  let acc ← self.activeHistory.accumulateRange range
  let (acc, overflow) ←
    self.accumulateAdded cycle periodsPerCycle threadCount curSlot acc overflow
  let (acc, underflow) := accumulateFinal finalProductionStats acc underflow
  pure (acc, !underflow && !overflow)

end SpeculativeRollState

/-! ### What the statistics of a cycle add up to -/

/-- The two counts of a statistics record. -/
def ProductionStats.counts (self : ProductionStats) : ℕ × ℕ :=
  (self.blockSuccessCount.toNat, self.blockFailureCount.toNat)

/-- What the statistics of a list of sources add up to at an address: nothing
when no source has the address, and otherwise each count summed over the
sources and capped at `u64::MAX`, where `extend` saturates. -/
def totalAt (addr : Address) (sources : List (SortedMap Address ProductionStats)) :
    Option (ℕ × ℕ) :=
  let present := sources.filterMap (·.get? addr)
  if present = [] then none
  else some (min (present.map (·.counts.1)).sum (2 ^ 64 - 1),
    min (present.map (·.counts.2)).sum (2 ^ 64 - 1))

theorem ProductionStats.counts_extend (a b : ProductionStats) :
    (a.extend b).counts = (min (a.counts.1 + b.counts.1) (2 ^ 64 - 1),
      min (a.counts.2 + b.counts.2) (2 ^ 64 - 1)) := by
  simp only [counts, extend, toNat_saturatingAdd_eq_min]

/-- Accumulating is merging key by key, an incoming record extending the one
already there. -/
theorem accumulateStats_eq_mergeWith (acc stats : SortedMap Address ProductionStats) :
    accumulateStats acc stats = acc.mergeWith ProductionStats.extend stats := by
  unfold accumulateStats SortedMap.mergeWith
  apply List.foldl_ext
  intro acc e _
  cases acc.get? e.1 <;> rfl

theorem get?_accumulateStats (acc stats : SortedMap Address ProductionStats) (addr : Address) :
    (accumulateStats acc stats).get? addr =
      Action.optComp ProductionStats.extend (acc.get? addr) (stats.get? addr) := by
  rw [accumulateStats_eq_mergeWith, SortedMap.get?_mergeWith]

@[simp] theorem accumulateStats_empty (acc : SortedMap Address ProductionStats) :
    accumulateStats acc ∅ = acc := rfl

section TotalAt

variable (addr : Address)

/-- The total does not depend on the order of the sources. -/
theorem totalAt_perm {l l' : List (SortedMap Address ProductionStats)} (h : l.Perm l') :
    totalAt addr l = totalAt addr l' := by
  have hpresent := h.filterMap (·.get? addr)
  have hnil : l.filterMap (·.get? addr) = [] ↔ l'.filterMap (·.get? addr) = [] := by
    rw [← List.length_eq_zero_iff, hpresent.length_eq, List.length_eq_zero_iff]
  simp only [totalAt, hnil, (hpresent.map _).sum_eq]

@[simp] theorem totalAt_empty_cons (l : List (SortedMap Address ProductionStats)) :
    totalAt addr (∅ :: l) = totalAt addr l := rfl

/-- A single source totals to its own record. -/
theorem totalAt_singleton (m : SortedMap Address ProductionStats) :
    totalAt addr [m] = (m.get? addr).map ProductionStats.counts := by
  cases hm : m.get? addr with
  | none => simp [totalAt, hm]
  | some s =>
    have hsuccess := s.blockSuccessCount.toNat_lt
    have hfailure := s.blockFailureCount.toNat_lt
    simp only [totalAt, List.filterMap_cons, hm, List.filterMap_nil, reduceCtorEq, if_false,
      List.map_cons, List.map_nil, List.sum_cons, List.sum_nil, Option.map_some,
      ProductionStats.counts, Option.some.injEq, Prod.mk.injEq]
    omega

/-- Accumulating a source into the head is summing it in. -/
theorem totalAt_accumulateStats (acc m : SortedMap Address ProductionStats)
    (l : List (SortedMap Address ProductionStats)) :
    totalAt addr (accumulateStats acc m :: l) = totalAt addr (acc :: m :: l) := by
  have hhead := get?_accumulateStats acc m addr
  cases ha : acc.get? addr with
  | none =>
    rw [ha, Action.optComp_none_left] at hhead
    simp only [totalAt, List.filterMap_cons, hhead, ha]
  | some a =>
    cases hm : m.get? addr with
    | none =>
      rw [ha, hm, Action.optComp_none_right] at hhead
      simp only [totalAt, List.filterMap_cons, hhead, ha, hm]
    | some b =>
      rw [ha, hm, Action.optComp_some_some] at hhead
      -- one extended record against the two: the caps agree
      simp only [totalAt, List.filterMap_cons, hhead, ha, hm, reduceCtorEq, if_false,
        List.map_cons, List.sum_cons, ProductionStats.counts_extend, Option.some.injEq,
        Prod.mk.injEq]
      omega

/-- **The accumulation loop.**  Accumulating sources one after another into
`acc` totals them with `acc`. -/
theorem counts_foldl_accumulateStats (l : List (SortedMap Address ProductionStats)) :
    ∀ acc : SortedMap Address ProductionStats,
      ((l.foldl accumulateStats acc).get? addr).map ProductionStats.counts = totalAt addr (acc :: l) := by
  induction l with
  | nil => exact fun acc => (totalAt_singleton addr acc).symm
  | cons m l ih =>
    intro acc
    rw [List.foldl_cons, ih, totalAt_accumulateStats]

end TotalAt

/-! ### Positions in the history -/

/-- The history follows the last final slot one slot at a time, and the
current slot follows the history: output `i` is `i + 1` positions after the
final slot, and the current slot comes right after the last output. -/
structure ActiveHistory.FollowsFinal (hist : ActiveHistory) (threadCount : UInt8)
    (finalSlot curSlot : Slot) : Prop where
  final_thread : finalSlot.thread.toNat < threadCount.toNat
  output_thread : ∀ i (h : i < hist.outputs.length),
    hist.outputs[i].slot.thread.toNat < threadCount.toNat
  output_index : ∀ i (h : i < hist.outputs.length),
    hist.outputs[i].slot.index threadCount = finalSlot.index threadCount + 1 + i
  cur_thread : curSlot.thread.toNat < threadCount.toNat
  cur_index : curSlot.index threadCount = finalSlot.index threadCount + 1 + hist.outputs.length

namespace ActiveHistory

section Positions

variable {threadCount : UInt8}

/-- **`get_slot_index`.**  For a slot whose position fits in a `u64`, the
position in a non-empty history is the distance from its first output: the
past before it, the future from its length on. -/
theorem getSlotIndex_eq {self : ActiveHistory} {first : ExecutionOutput}
    {rest : List ExecutionOutput} (hout : self.outputs = first :: rest)
    (hfirst : first.slot.thread.toNat < threadCount.toNat) {s : Slot}
    (hs : s.thread.toNat < threadCount.toNat) (hfit : s.index threadCount < 2 ^ 64) :
    self.getSlotIndex s threadCount =
      if s.index threadCount < first.slot.index threadCount then .past
      else if s.index threadCount < first.slot.index threadCount + self.outputs.length then
        .found (s.index threadCount - first.slot.index threadCount)
      else .future := by
  unfold getSlotIndex
  rw [hout]
  dsimp only
  by_cases hlt : s < first.slot
  · rw [if_pos hlt, if_pos ((Slot.index_lt_index_iff hs hfirst).mpr hlt)]
  · have hle : first.slot ≤ s := not_lt.mp hlt
    have hidx := (Slot.index_le_index_iff hfirst hs).mpr hle
    obtain ⟨k, hk, hkval⟩ := Slot.slotsSince_eq_index_sub hle hfirst hfit
    rw [if_neg hlt, if_neg (by omega), hk]
    -- the count of slots since the first output is the distance of the positions
    simp only [hkval]
    by_cases hin : s.index threadCount < first.slot.index threadCount + (first :: rest).length
    · rw [if_neg (by omega), if_pos hin]
    · rw [if_pos (by omega), if_neg hin]

/-- An empty history has no position: both flags are raised. -/
theorem findCycleIndices_of_nil {self : ActiveHistory} (hout : self.outputs = [])
    {cycle periodsPerCycle : UInt64} (hppc : 0 < periodsPerCycle.toNat)
    (hT : 0 < threadCount.toNat)
    (hfit : (cycle.toNat + 1) * periodsPerCycle.toNat * threadCount.toNat ≤ 2 ^ 64) :
    self.findCycleIndices cycle periodsPerCycle threadCount = ((0, 0), true, true) := by
  obtain ⟨first, hfirst, -⟩ := Slot.newFirstOfCycle_index hppc hT hfit
  unfold findCycleIndices getSlotIndex
  rw [hfirst, hout]

/-- **`find_cycle_indices`.**  Over a non-empty history and a cycle whose
positions fit in a `u64`, the range holds the history indices at the
positions of the cycle, `underflow` says that the cycle begins before the
history and `overflow` that it ends after it. -/
theorem findCycleIndices_spec {self : ActiveHistory} {first : ExecutionOutput}
    {rest : List ExecutionOutput} (hout : self.outputs = first :: rest)
    (hfirst : first.slot.thread.toNat < threadCount.toNat)
    {cycle periodsPerCycle : UInt64} (hppc : 0 < periodsPerCycle.toNat)
    (hT : 0 < threadCount.toNat)
    (hfit : (cycle.toNat + 1) * periodsPerCycle.toNat * threadCount.toNat ≤ 2 ^ 64)
    {lo hi : ℕ} {underflow overflow : Bool}
    (h : self.findCycleIndices cycle periodsPerCycle threadCount =
      ((lo, hi), underflow, overflow)) :
    (∀ i, lo ≤ i ∧ i < hi ↔
      cycle.toNat * periodsPerCycle.toNat * threadCount.toNat ≤ first.slot.index threadCount + i ∧
        first.slot.index threadCount + i <
          (cycle.toNat + 1) * periodsPerCycle.toNat * threadCount.toNat ∧
        i < self.outputs.length) ∧
    hi ≤ self.outputs.length ∧
    (underflow = true ↔
      cycle.toNat * periodsPerCycle.toNat * threadCount.toNat < first.slot.index threadCount) ∧
    (overflow = true ↔ first.slot.index threadCount + self.outputs.length <
      (cycle.toNat + 1) * periodsPerCycle.toNat * threadCount.toNat) := by
  obtain ⟨firstSlot, hfs, hfsth, hfsidx⟩ := Slot.newFirstOfCycle_index hppc hT hfit
  obtain ⟨lastSlot, hls, hlsth, hlsidx⟩ := Slot.newLastOfCycle_index hppc hT hfit
  -- the cycle has `periods_per_cycle * thread_count > 0` positions
  have hlen : 0 < periodsPerCycle.toNat * threadCount.toNat := Nat.mul_pos hppc hT
  have hnext : (cycle.toNat + 1) * periodsPerCycle.toNat * threadCount.toNat =
      cycle.toNat * periodsPerCycle.toNat * threadCount.toNat +
        periodsPerCycle.toNat * threadCount.toNat := by ring
  unfold findCycleIndices at h
  rw [hfs, hls] at h
  dsimp only at h
  rw [getSlotIndex_eq hout hfirst hfsth (by omega),
    getSlotIndex_eq hout hfirst hlsth (by omega)] at h
  -- each end of the cycle is before, in or after the history
  split_ifs at h <;> simp only [Prod.mk.injEq] at h <;> obtain ⟨⟨rfl, rfl⟩, rfl, rfl⟩ := h <;>
    refine ⟨fun i => ?_, ?_, ?_, ?_⟩ <;> simp <;> omega

/-- A slot that `slots_since` cannot reach from the first output in a `u64`
is read as the past, however far after the history it is; a cycle that
begins at the first output or before, and whose last slot is such a slot, is
reported as over before the history. -/
theorem findCycleIndices_of_slotsSince_overflow {self : ActiveHistory} {first : ExecutionOutput}
    {rest : List ExecutionOutput} (hout : self.outputs = first :: rest)
    {cycle periodsPerCycle : UInt64} {firstSlot lastSlot : Slot}
    (hfirst : Slot.newFirstOfCycle cycle periodsPerCycle = .ok firstSlot)
    (hbefore : firstSlot ≤ first.slot)
    (hlast : Slot.newLastOfCycle cycle periodsPerCycle threadCount = .ok lastSlot)
    (hafter : first.slot ≤ lastSlot) {e : Slot.ModelsError}
    (hover : lastSlot.slotsSince first.slot threadCount = .error e) :
    self.findCycleIndices cycle periodsPerCycle threadCount = ((0, 0), true, false) := by
  -- the last slot of the cycle is read as the past
  have hlastPast : self.getSlotIndex lastSlot threadCount = .past := by
    unfold getSlotIndex
    rw [hout]
    dsimp only
    rw [if_neg (not_lt.mpr hafter), hover]
  -- the first slot of the cycle is the first output or before it
  have hfirstIn : self.getSlotIndex firstSlot threadCount = .past ∨
      self.getSlotIndex firstSlot threadCount = .found 0 := by
    unfold getSlotIndex
    rw [hout]
    dsimp only
    rcases hbefore.lt_or_eq with hlt | rfl
    · exact .inl (if_pos hlt)
    · refine .inr ?_
      rw [if_neg (lt_irrefl _), Slot.slotsSince_self]
      dsimp only
      rw [if_neg (by simp)]
      rfl
  unfold findCycleIndices
  rw [hfirst, hlast]
  dsimp only
  rcases hfirstIn with hpos | hpos <;> rw [hpos, hlastPast]

end Positions


/-- The statistics that an output adds. -/
def outputStats (output : ExecutionOutput) : SortedMap Address ProductionStats :=
  output.stateChanges.posChanges.productionStats

/-- **The history loop.**  Over indices within the history, the loop adds the
statistics of the outputs at those indices, in order. -/
theorem foldlM_accumulateOutput (self : ActiveHistory) {lo k : ℕ}
    (hk : lo + k ≤ self.outputs.length) :
    ∀ acc, (List.range' lo k).foldlM self.accumulateOutput acc =
      .ok ((((self.outputs.drop lo).take k).map outputStats).foldl accumulateStats acc) := by
  induction k generalizing lo with
  | zero => exact fun acc => rfl
  | succ k ih =>
    intro acc
    have hlo : lo < self.outputs.length := by omega
    -- one turn: the output at `lo` is read and added
    have hturn : self.accumulateOutput acc lo =
        .ok (accumulateStats acc (outputStats self.outputs[lo])) := by
      simp [accumulateOutput, outputAt, outputStats, hlo]
    rw [List.range'_succ, List.foldlM_cons, hturn, Except.ok_bind, ih (by omega),
      List.drop_eq_getElem_cons hlo, List.take_succ_cons, List.map_cons, List.foldl_cons]

theorem accumulateRange_eq (self : ActiveHistory) {lo hi : ℕ} (hhi : hi ≤ self.outputs.length) :
    self.accumulateRange (lo, hi) =
      .ok ((((self.outputs.drop lo).take (hi - lo)).map outputStats).foldl accumulateStats ∅) := by
  by_cases hle : lo ≤ hi
  · exact foldlM_accumulateOutput self (by omega) ∅
  · -- an empty range
    show (List.range' lo (hi - lo)).foldlM self.accumulateOutput ∅ = _
    rw [show hi - lo = 0 by omega]
    rfl

namespace FollowsFinal

variable {self : ActiveHistory} {threadCount : UInt8} {finalSlot curSlot : Slot}

/-- The first output is right after the final slot. -/
theorem head (hh : self.FollowsFinal threadCount finalSlot curSlot) {first : ExecutionOutput}
    {rest : List ExecutionOutput} (hout : self.outputs = first :: rest) :
    first.slot.thread.toNat < threadCount.toNat ∧
      first.slot.index threadCount = finalSlot.index threadCount + 1 := by
  have h0 : 0 < self.outputs.length := by
    rw [hout]
    exact Nat.succ_pos _
  have hfirst : self.outputs[0] = first := List.getElem_of_eq hout h0
  refine ⟨hfirst ▸ hh.output_thread 0 h0, ?_⟩
  rw [← hfirst, hh.output_index 0 h0]

/-- The last output is as many positions after the final slot as there are
outputs. -/
theorem getLast (hh : self.FollowsFinal threadCount finalSlot curSlot) {last : ExecutionOutput}
    (hlast : self.outputs.getLast? = some last) :
    last.slot.thread.toNat < threadCount.toNat ∧
      last.slot.index threadCount = finalSlot.index threadCount + self.outputs.length := by
  rw [List.getLast?_eq_getElem?] at hlast
  obtain ⟨hlt, hget⟩ := List.getElem?_eq_some_iff.mp hlast
  rw [← hget]
  refine ⟨hh.output_thread _ hlt, ?_⟩
  rw [hh.output_index _ hlt]
  omega

theorem getCycle_eq_ok_iff (hh : self.FollowsFinal threadCount finalSlot curSlot)
    {cycle periodsPerCycle : UInt64} (hppc : 0 < periodsPerCycle.toNat) {i : ℕ}
    (hi : i < self.outputs.length) :
    self.outputs[i].slot.getCycle periodsPerCycle = .ok cycle ↔
      cycle.toNat * periodsPerCycle.toNat * threadCount.toNat ≤
          finalSlot.index threadCount + 1 + i ∧
        finalSlot.index threadCount + 1 + i <
          (cycle.toNat + 1) * periodsPerCycle.toNat * threadCount.toNat := by
  rw [Slot.getCycle_eq_ok_iff_index hppc (hh.output_thread i hi), hh.output_index i hi]

section Cycle

variable {cycle periodsPerCycle : UInt64} {lo hi : ℕ} {underflow overflow : Bool}

/-- A cleared flag places the cycle: no underflow, and the cycle begins after
the final slot; no overflow, and it ends before the current slot. -/
theorem flags (hh : self.FollowsFinal threadCount finalSlot curSlot)
    (hppc : 0 < periodsPerCycle.toNat) (hT : 0 < threadCount.toNat)
    (hfit : (cycle.toNat + 1) * periodsPerCycle.toNat * threadCount.toNat ≤ 2 ^ 64)
    (hfind : self.findCycleIndices cycle periodsPerCycle threadCount =
      ((lo, hi), underflow, overflow)) :
    (underflow = false →
      finalSlot.index threadCount + 1 ≤ cycle.toNat * periodsPerCycle.toNat * threadCount.toNat) ∧
    (overflow = false →
      (cycle.toNat + 1) * periodsPerCycle.toNat * threadCount.toNat ≤ curSlot.index threadCount) := by
  by_cases hnil : self.outputs = []
  · -- an empty history raises both flags
    rw [findCycleIndices_of_nil hnil hppc hT hfit] at hfind
    simp only [Prod.mk.injEq] at hfind
    obtain ⟨-, rfl, rfl⟩ := hfind
    simp
  · obtain ⟨first, rest, hout⟩ := List.exists_cons_of_ne_nil hnil
    obtain ⟨hfirstThread, hfirstIndex⟩ := hh.head hout
    obtain ⟨-, -, hunder, hover⟩ := findCycleIndices_spec hout hfirstThread hppc hT hfit hfind
    have hcur := hh.cur_index
    refine ⟨fun hu => ?_, fun ho => ?_⟩
    · subst hu
      simp only [Bool.false_eq_true, false_iff, not_lt] at hunder
      omega
    · subst ho
      simp only [Bool.false_eq_true, false_iff, not_lt] at hover
      omega

/-- **`find_cycle_indices` on a history that follows the final slot.**  When
the positions of the cycle fit in a `u64`, the range holds exactly the
indices of the outputs whose slots are in the cycle; on a non-empty history,
`underflow` says that a slot of the cycle comes before the first output and
`overflow` that a slot of the cycle comes after the last one. -/
theorem findCycleIndices_covers_cycle (hh : self.FollowsFinal threadCount finalSlot curSlot)
    (hppc : 0 < periodsPerCycle.toNat) (hT : 0 < threadCount.toNat)
    (hfit : (cycle.toNat + 1) * periodsPerCycle.toNat * threadCount.toNat ≤ 2 ^ 64)
    (hfind : self.findCycleIndices cycle periodsPerCycle threadCount =
      ((lo, hi), underflow, overflow)) :
    (∀ i, lo ≤ i ∧ i < hi ↔ ∃ h : i < self.outputs.length,
      self.outputs[i].slot.getCycle periodsPerCycle = .ok cycle) ∧
    hi ≤ self.outputs.length ∧
    (∀ first, self.outputs.head? = some first →
      (underflow = true ↔ ∃ s : Slot, s.thread.toNat < threadCount.toNat ∧
        s.getCycle periodsPerCycle = .ok cycle ∧ s < first.slot)) ∧
    (∀ last, self.outputs.getLast? = some last →
      (overflow = true ↔ ∃ s : Slot, s.thread.toNat < threadCount.toNat ∧
        s.getCycle periodsPerCycle = .ok cycle ∧ last.slot < s)) := by
  by_cases hnil : self.outputs = []
  · rw [findCycleIndices_of_nil hnil hppc hT hfit] at hfind
    simp only [Prod.mk.injEq] at hfind
    obtain ⟨⟨rfl, rfl⟩, -, -⟩ := hfind
    refine ⟨fun i => ?_, Nat.zero_le _, fun first h => ?_, fun last h => ?_⟩ <;> simp [hnil] at *
  · obtain ⟨first, rest, hout⟩ := List.exists_cons_of_ne_nil hnil
    obtain ⟨hfirstThread, hfirstIndex⟩ := hh.head hout
    obtain ⟨hrange, hhi, hunder, hover⟩ :=
      findCycleIndices_spec hout hfirstThread hppc hT hfit hfind
    refine ⟨fun i => ⟨fun hi => ?_, fun ⟨hi, hcycle⟩ => ?_⟩, hhi, fun first' h => ?_,
      fun last h => ?_⟩
    · -- an index of the range is an output of the cycle
      obtain ⟨hlo, hhi, hlt⟩ := (hrange i).mp hi
      exact ⟨hlt, (hh.getCycle_eq_ok_iff hppc hlt).mpr ⟨by omega, by omega⟩⟩
    · obtain ⟨hlo, hhi⟩ := (hh.getCycle_eq_ok_iff hppc hi).mp hcycle
      exact (hrange i).mpr ⟨by omega, by omega, hi⟩
    · rw [hout, List.head?_cons, Option.some.injEq] at h
      subst h
      rw [hunder, Slot.exists_getCycle_lt_iff hppc hT hfit hfirstThread]
    · obtain ⟨hlastThread, hlastIndex⟩ := hh.getLast h
      rw [hover, Slot.exists_getCycle_gt_iff hppc hT hfit hlastThread]
      omega

/-- Three outputs after the final slot `(1, 1)`, for cycle 1 of two periods of
two threads: the range is the whole history, and the cycle goes on after it. -/
theorem findCycleIndices_covers_cycle_cycle_one :
    let hist : ActiveHistory := ⟨[⟨⟨2, 0⟩, {}⟩, ⟨⟨2, 1⟩, {}⟩, ⟨⟨3, 0⟩, {}⟩]⟩
    hist.findCycleIndices 1 2 2 = ((0, 3), false, true) ∧
      ∀ i, 0 ≤ i ∧ i < 3 ↔ ∃ h : i < hist.outputs.length,
        hist.outputs[i].slot.getCycle 2 = .ok 1 := by
  intro hist
  have hfind : hist.findCycleIndices 1 2 2 = ((0, 3), false, true) := by decide
  have hfollows : hist.FollowsFinal 2 ⟨1, 1⟩ ⟨3, 1⟩ :=
    ⟨by decide, by decide, by decide, by decide, by decide⟩
  exact ⟨hfind,
    (findCycleIndices_covers_cycle hfollows (by decide) (by decide) (by decide) hfind).1⟩

/-- The history loop adds the outputs of the cycle. -/
theorem accumulateRange_findCycleIndices (hh : self.FollowsFinal threadCount finalSlot curSlot)
    (hppc : 0 < periodsPerCycle.toNat) (hT : 0 < threadCount.toNat)
    (hfit : (cycle.toNat + 1) * periodsPerCycle.toNat * threadCount.toNat ≤ 2 ^ 64)
    (hfind : self.findCycleIndices cycle periodsPerCycle threadCount =
      ((lo, hi), underflow, overflow))
    {acc : SortedMap Address ProductionStats} (hrange : self.accumulateRange (lo, hi) = .ok acc) :
    acc = ((self.outputs.filter fun o => o.slot.getCycle periodsPerCycle = .ok cycle).map
      outputStats).foldl accumulateStats ∅ := by
  obtain ⟨hcover, hhi, -, -⟩ := findCycleIndices_covers_cycle hh hppc hT hfit hfind
  -- the outputs of the cycle are the slice of the range
  have hslice : (self.outputs.filter fun o => o.slot.getCycle periodsPerCycle = .ok cycle) =
      (self.outputs.drop lo).take (hi - lo) := by
    refine List.filter_eq_take_drop fun idx hidx => ?_
    have hcover := hcover idx
    simp only [decide_eq_true_eq]
    constructor
    · intro hcycle
      have := hcover.mpr ⟨hidx, hcycle⟩
      omega
    · intro hin
      exact (hcover.mp ⟨hin.1, by omega⟩).2
  rw [hslice]
  exact Except.ok.inj (hrange.symm.trans (accumulateRange_eq self hhi))
end Cycle

end FollowsFinal

end ActiveHistory

/-! ### A result reported complete -/

namespace SpeculativeRollState

variable {self : SpeculativeRollState} {cycle periodsPerCycle : UInt64} {threadCount : UInt8}
  {curSlot : Slot}

/-- The overflow is cleared only when there was none, or when the current slot
is the last slot of the cycle, whose added changes are then counted. -/
theorem accumulateAdded_eq_ok_false {acc acc' : SortedMap Address ProductionStats}
    {overflow : Bool}
    (h : self.accumulateAdded cycle periodsPerCycle threadCount curSlot acc overflow =
      .ok (acc', false)) :
    (overflow = false ∧ acc' = acc) ∨
      (curSlot.getCycle periodsPerCycle = .ok cycle ∧
        Slot.newLastOfCycle cycle periodsPerCycle threadCount = .ok curSlot ∧
        acc' = accumulateStats acc self.addedChanges.productionStats) := by
  unfold accumulateAdded at h
  cases overflow with
  | false =>
    cases h
    exact .inl ⟨rfl, rfl⟩
  | true =>
    rw [if_pos rfl] at h
    cases hcur : curSlot.getCycle periodsPerCycle with
    | error e =>
      rw [hcur] at h
      cases h
    | ok curCycle =>
      rw [hcur, Except.ok_bind] at h
      by_cases hcycle : curCycle = cycle
      · subst hcycle
        rw [if_pos rfl] at h
        cases hlast : Slot.newLastOfCycle curCycle periodsPerCycle threadCount with
        | error e =>
          rw [hlast] at h
          cases h
        | ok lastSlot =>
          rw [hlast] at h
          dsimp only at h
          rw [pure_bind] at h
          -- only the last slot clears the overflow
          split_ifs at h with hle heq
          · cases h
            exact .inr ⟨rfl, heq ▸ rfl, rfl⟩
          · cases h
          · cases h
      · rw [if_neg hcycle] at h
        cases h

/-- The underflow is cleared only when there was none, or by the final
state's statistics, which are then counted. -/
theorem accumulateFinal_eq_false {finalProductionStats : Option (SortedMap Address ProductionStats)}
    {acc acc' : SortedMap Address ProductionStats} {underflow : Bool}
    (h : accumulateFinal finalProductionStats acc underflow = (acc', false)) :
    (underflow = false ∧ acc' = acc) ∨
      ∃ finalStats, finalProductionStats = some finalStats ∧
        acc' = accumulateStats acc finalStats := by
  unfold accumulateFinal at h
  cases underflow with
  | false =>
    cases h
    exact .inl ⟨rfl, rfl⟩
  | true =>
    cases finalProductionStats with
    | none => cases h
    | some finalStats =>
      cases h
      exact .inr ⟨finalStats, rfl, rfl⟩

/-- A result reported complete went through the three blocks with both flags
cleared. -/
theorem getProductionStatsAtCycle_eq_ok_true
    {finalProductionStats : Option (SortedMap Address ProductionStats)}
    {stats : SortedMap Address ProductionStats}
    (h : self.getProductionStatsAtCycle finalProductionStats cycle periodsPerCycle threadCount
      curSlot = .ok (stats, true)) :
    ∃ lo hi underflow overflow acc₀ acc₁,
      self.activeHistory.findCycleIndices cycle periodsPerCycle threadCount =
        ((lo, hi), underflow, overflow) ∧
      self.activeHistory.accumulateRange (lo, hi) = .ok acc₀ ∧
      self.accumulateAdded cycle periodsPerCycle threadCount curSlot acc₀ overflow =
        .ok (acc₁, false) ∧
      accumulateFinal finalProductionStats acc₁ underflow = (stats, false) := by
  unfold getProductionStatsAtCycle at h
  rcases hfind : self.activeHistory.findCycleIndices cycle periodsPerCycle threadCount with
    ⟨⟨lo, hi⟩, underflow, overflow⟩
  rw [hfind] at h
  dsimp only at h
  cases hrange : self.activeHistory.accumulateRange (lo, hi) with
  | error e =>
    rw [hrange] at h
    cases h
  | ok acc₀ =>
    rw [hrange, Except.ok_bind] at h
    cases hadded : self.accumulateAdded cycle periodsPerCycle threadCount curSlot acc₀ overflow with
    | error e =>
      rw [hadded] at h
      cases h
    | ok r =>
      obtain ⟨acc₁, overflow'⟩ := r
      rw [hadded, Except.ok_bind] at h
      dsimp only at h
      rcases hfinal : accumulateFinal finalProductionStats acc₁ underflow with
        ⟨stats', underflow'⟩
      rw [hfinal] at h
      -- the flag is the conjunction of the two cleared flags
      simp only [pure, Except.pure, Except.ok.injEq, Prod.mk.injEq, Bool.and_eq_true,
        Bool.not_eq_true'] at h
      obtain ⟨rfl, rfl, rfl⟩ := h
      exact ⟨lo, hi, underflow, overflow, acc₀, acc₁, rfl, hrange, hadded, hfinal⟩


section Complete

variable {finalSlot : Slot} {lo hi : ℕ} {underflow overflow : Bool}

/-- With the overflow cleared, the added changes were counted exactly when the
current slot is in the cycle, and the cycle ends by the current slot. -/
theorem accumulateAdded_complete
    (hh : self.activeHistory.FollowsFinal threadCount finalSlot curSlot)
    (hppc : 0 < periodsPerCycle.toNat) (hT : 0 < threadCount.toNat)
    (hfit : (cycle.toNat + 1) * periodsPerCycle.toNat * threadCount.toNat ≤ 2 ^ 64)
    (hfind : self.activeHistory.findCycleIndices cycle periodsPerCycle threadCount =
      ((lo, hi), underflow, overflow))
    {acc acc' : SortedMap Address ProductionStats}
    (hadded : self.accumulateAdded cycle periodsPerCycle threadCount curSlot acc overflow =
      .ok (acc', false)) :
    acc' = (if curSlot.getCycle periodsPerCycle = .ok cycle then
        [self.addedChanges.productionStats] else []).foldl accumulateStats acc ∧
      (cycle.toNat + 1) * periodsPerCycle.toNat * threadCount.toNat ≤
        curSlot.index threadCount + 1 := by
  rcases accumulateAdded_eq_ok_false hadded with ⟨rfl, rfl⟩ | ⟨hcycle, hlast, rfl⟩
  · -- no overflow: the cycle ends before the current slot
    have hend := (hh.flags hppc hT hfit hfind).2 rfl
    have hout : curSlot.getCycle periodsPerCycle ≠ .ok cycle := fun hcycle => by
      have := ((Slot.getCycle_eq_ok_iff_index hppc hh.cur_thread).mp hcycle).2
      omega
    rw [if_neg hout]
    exact ⟨rfl, by omega⟩
  · -- the current slot is the last slot of the cycle
    obtain ⟨last, hlast', -, hlastIndex⟩ := Slot.newLastOfCycle_index hppc hT hfit
    rw [hlast, Except.ok.injEq] at hlast'
    subst hlast'
    rw [if_pos hcycle]
    exact ⟨rfl, by omega⟩

/-- With the underflow cleared, the final statistics were counted exactly when
the cycle begins at or before the final slot. -/
theorem accumulateFinal_complete
    (hh : self.activeHistory.FollowsFinal threadCount finalSlot curSlot)
    (hppc : 0 < periodsPerCycle.toNat) (hT : 0 < threadCount.toNat)
    (hfit : (cycle.toNat + 1) * periodsPerCycle.toNat * threadCount.toNat ≤ 2 ^ 64)
    (hfind : self.activeHistory.findCycleIndices cycle periodsPerCycle threadCount =
      ((lo, hi), underflow, overflow))
    {finalProductionStats : Option (SortedMap Address ProductionStats)}
    (hfinal : finalSlot < ⟨cycle * periodsPerCycle, 0⟩ →
      finalProductionStats = none ∨ finalProductionStats = some ∅)
    {acc stats : SortedMap Address ProductionStats}
    (hfin : accumulateFinal finalProductionStats acc underflow = (stats, false)) :
    stats = (if (⟨cycle * periodsPerCycle, 0⟩ : Slot) ≤ finalSlot then
      finalProductionStats.toList else []).foldl accumulateStats acc := by
  -- the first slot of the cycle, at its first position
  obtain ⟨first, hfirst, hfirstThread, hfirstIndex⟩ := Slot.newFirstOfCycle_index hppc hT hfit
  have hfirstEq : first = ⟨cycle * periodsPerCycle, 0⟩ := by
    unfold Slot.newFirstOfCycle at hfirst
    split_ifs at hfirst
    exact (Except.ok.inj hfirst).symm
  subst hfirstEq
  have hbegin := Slot.index_le_index_iff hfirstThread hh.final_thread
  rcases accumulateFinal_eq_false hfin with ⟨rfl, rfl⟩ | ⟨finalStats, rfl, rfl⟩
  · -- no underflow: the cycle begins after the final slot
    have hafter := (hh.flags hppc hT hfit hfind).1 rfl
    rw [if_neg fun hle => by have := hbegin.mpr hle; omega]
    rfl
  · by_cases hle : (⟨cycle * periodsPerCycle, 0⟩ : Slot) ≤ finalSlot
    · rw [if_pos hle]
      rfl
    · -- a cycle that begins after the final slot has no final statistics
      rcases hfinal (lt_of_not_ge hle) with hnone | hempty
      · cases hnone
      · rw [Option.some.injEq] at hempty
        subst hempty
        rw [if_neg hle]
        rfl

end Complete

/-- **A result reported complete counts each slot of the cycle once.**  On a
history that follows the last final slot, with the current slot right after
it, and for a cycle whose positions fit in a `u64` and whose final statistics
are empty while it has no final slot: a result reported complete totals, at
every address, the final statistics of the cycle when it begins at or before
the final slot, the outputs of the history in the cycle, and the added
changes of the current slot when it is in the cycle; and no slot of the cycle
comes after the current slot. -/
theorem getProductionStatsAtCycle_full_counts (self : SpeculativeRollState)
    (finalProductionStats : Option (SortedMap Address ProductionStats))
    (cycle periodsPerCycle : UInt64) (threadCount : UInt8) (finalSlot curSlot : Slot)
    (hppc : 0 < periodsPerCycle.toNat) (hT : 0 < threadCount.toNat)
    (hfit : (cycle.toNat + 1) * periodsPerCycle.toNat * threadCount.toNat ≤ 2 ^ 64)
    (hh : self.activeHistory.FollowsFinal threadCount finalSlot curSlot)
    (hfinal : finalSlot < ⟨cycle * periodsPerCycle, 0⟩ →
      finalProductionStats = none ∨ finalProductionStats = some ∅)
    (stats : SortedMap Address ProductionStats)
    (h : self.getProductionStatsAtCycle finalProductionStats cycle periodsPerCycle threadCount
      curSlot = .ok (stats, true)) :
    (∀ addr, (stats.get? addr).map ProductionStats.counts = totalAt addr
      ((if (⟨cycle * periodsPerCycle, 0⟩ : Slot) ≤ finalSlot then finalProductionStats.toList
          else []) ++
        (self.activeHistory.outputs.filter fun o =>
          o.slot.getCycle periodsPerCycle = .ok cycle).map ActiveHistory.outputStats ++
        (if curSlot.getCycle periodsPerCycle = .ok cycle then [self.addedChanges.productionStats]
          else []))) ∧
    ∀ s : Slot, s.thread.toNat < threadCount.toNat → s.getCycle periodsPerCycle = .ok cycle →
      s ≤ curSlot := by
  obtain ⟨lo, hi, underflow, overflow, acc₀, acc₁, hfind, hrange, hadded, hfin⟩ :=
    getProductionStatsAtCycle_eq_ok_true h
  have hhist := hh.accumulateRange_findCycleIndices hppc hT hfit hfind hrange
  obtain ⟨hcur, hend⟩ := accumulateAdded_complete hh hppc hT hfit hfind hadded
  have hstats := accumulateFinal_complete hh hppc hT hfit hfind hfinal hfin
  refine ⟨fun addr => ?_, fun s hs hcycle => ?_⟩
  · -- the code adds the history, the current slot, then the final state
    rw [hstats, hcur, hhist, ← List.foldl_append, ← List.foldl_append,
      counts_foldl_accumulateStats, totalAt_empty_cons]
    refine totalAt_perm addr ?_
    -- the final statistics come first in the order of the slots
    have hperm : ∀ hist cur final : List (SortedMap Address ProductionStats),
        (hist ++ cur ++ final).Perm (final ++ hist ++ cur) := fun hist cur final => by
      rw [List.append_assoc final]
      exact List.perm_append_comm
    simpa only [List.append_assoc] using hperm _ _ _
  · have := ((Slot.getCycle_eq_ok_iff_index hppc hs).mp hcycle).2
    exact (Slot.index_le_index_iff hs hh.cur_thread).mp (by omega)


/-- Three outputs after the final slot `(1, 1)` and the current slot `(3, 1)`,
the last slot of cycle 1 of two periods of two threads, each with a block of
`zeroAddress`: the result is complete and counts the four blocks. -/
theorem getProductionStatsAtCycle_full_counts_cycle_one :
    let block : PoSChanges := { productionStats := .singleton zeroAddress ⟨1, 0⟩ }
    let st : SpeculativeRollState := ⟨⟨∅, 2, []⟩,
      ⟨[⟨⟨2, 0⟩, { posChanges := block }⟩, ⟨⟨2, 1⟩, { posChanges := block }⟩,
        ⟨⟨3, 0⟩, { posChanges := block }⟩]⟩, block⟩
    st.getProductionStatsAtCycle none 1 2 2 ⟨3, 1⟩ = .ok (.singleton zeroAddress ⟨4, 0⟩, true) ∧
      ∀ s : Slot, s.thread.toNat < 2 → s.getCycle 2 = .ok 1 → s ≤ ⟨3, 1⟩ := by
  intro block st
  have hrun : st.getProductionStatsAtCycle none 1 2 2 ⟨3, 1⟩ =
      .ok (.singleton zeroAddress ⟨4, 0⟩, true) := by decide
  have hfollows : st.activeHistory.FollowsFinal 2 ⟨1, 1⟩ ⟨3, 1⟩ :=
    ⟨by decide, by decide, by decide, by decide, by decide⟩
  exact ⟨hrun, (getProductionStatsAtCycle_full_counts st none 1 2 2 ⟨1, 1⟩ ⟨3, 1⟩ (by decide)
    (by decide) (by decide) hfollows (fun _ => .inl rfl) _ hrun).2⟩

/-- **An overflow of `slots_since` hides the history.**  When the first output
of the history is in the cycle but the cycle's last slot is too far from it
for `slots_since` to count the slots between them in a `u64`,
`find_cycle_indices` reports the cycle as over before the history: with
statistics in the final state, the result is reported complete and holds only
them, whatever the history and the current slot hold. -/
theorem getProductionStatsAtCycle_of_slotsSince_overflow (self : SpeculativeRollState)
    (finalStats : SortedMap Address ProductionStats) (cycle periodsPerCycle : UInt64)
    (threadCount : UInt8) (curSlot : Slot) {first : ExecutionOutput}
    {rest : List ExecutionOutput} (hout : self.activeHistory.outputs = first :: rest)
    {firstSlot lastSlot : Slot} (hfirst : Slot.newFirstOfCycle cycle periodsPerCycle = .ok firstSlot)
    (hbefore : firstSlot ≤ first.slot)
    (hlast : Slot.newLastOfCycle cycle periodsPerCycle threadCount = .ok lastSlot)
    (hafter : first.slot ≤ lastSlot) {e : Slot.ModelsError}
    (hover : lastSlot.slotsSince first.slot threadCount = .error e) :
    self.getProductionStatsAtCycle (some finalStats) cycle periodsPerCycle threadCount curSlot =
      .ok (accumulateStats ∅ finalStats, true) := by
  rw [getProductionStatsAtCycle, ActiveHistory.findCycleIndices_of_slotsSince_overflow hout hfirst
    hbefore hlast hafter hover]
  rfl

/-- Cycle 0 of `2 ^ 60` periods of 32 threads, and one output at `(5, 0)` with
a block of `zeroAddress`: the result is complete and empty. -/
theorem getProductionStatsAtCycle_of_slotsSince_overflow_long_cycle :
    let st : SpeculativeRollState := ⟨⟨∅, 32, []⟩,
      ⟨[⟨⟨5, 0⟩, { posChanges := { productionStats := .singleton zeroAddress ⟨1, 0⟩ } }⟩]⟩, {}⟩
    st.getProductionStatsAtCycle (some ∅) 0 1152921504606846976 32 ⟨5, 1⟩ = .ok (∅, true) :=
  getProductionStatsAtCycle_of_slotsSince_overflow _ ∅ 0 1152921504606846976 32 ⟨5, 1⟩ rfl
    (show Slot.newFirstOfCycle 0 1152921504606846976 = .ok ⟨0, 0⟩ by decide) (by decide)
    (show Slot.newLastOfCycle 0 1152921504606846976 32 = .ok ⟨1152921504606846975, 31⟩ by decide)
    (by decide)
    (show (⟨1152921504606846975, 31⟩ : Slot).slotsSince ⟨5, 0⟩ 32 = .error .periodOverflowError by
      decide)

end SpeculativeRollState

end Massa
