import Massa.Versioning.Store
import Massa.ExecutedOps.Changes
import Massa.Execution.SpeculativeExecutedOps

/-!
# The vote statistics of the MIP store (`massa-versioning/src/versioning.rs`)

Each block header announces the network version its producer is willing to
move to.  `MipStoreRaw::update_network_version_stats` keeps the last
`block_count_considered` announcements in a queue (`latest_announcements`)
and, beside it, a counter per announced version (`network_version_counters`),
incremented for the new announcement before it is decremented for the one
that leaves the window.  `advance_states_on_updated_stats` then advances every
MIP that is not final with the count of its version over
`block_count_considered` as vote ratio.

* `MipStoreStats.Counts` — the counters count the versions of a list, with no
  zero entry; `countAnnouncement_counts` and `forgetAnnouncement_counts` are
  the two updates of a counter.
* `MipStoreStats.Window` — the queue is the last `block_count_considered`
  announcements, and the counters count it; `Window.recordNetworkVersions`
  is one call, `window_foldl_recordNetworkVersions` a run.
* `networkVersionStats_slidingWindow` — from the statistics that
  `MipStoreStats::new` builds, every run succeeds and keeps the window, and
  the next call advances each MIP that is not final with its count in the
  window over `block_count_considered`.  A counter saturates only at
  `u64::MAX` announcements of one version, and `new` cannot lay out a queue
  anywhere near that size.

The warning logged when an unknown version is announced by more than
`warn_announced_version_ratio` of the window is not modelled; its `Ratio::new`
is, since it panics on a zero `block_count_considered`.
-/

namespace Massa

/-- Network versions are ordered by value, as the keys of the counters. -/
instance instLinearOrderUInt32 : LinearOrder UInt32 :=
  LinearOrder.lift' UInt32.toNat (fun _ _ h => UInt32.toNat_inj.mp h)

/-- `ComponentState::is_final`: `Active`, `Failed` and `Error` do not move. -/
def ComponentState.isFinal : ComponentState → Bool
  | .active _ | .failed | .error => true
  | _ => false

/-- `MipState::is_final`. -/
def MipState.isFinal (self : MipState) : Bool := self.state.isFinal

/-- `MipStatsConfig`; `warn_announced_version_ratio` only gates a log line.
`block_count_considered` is a `usize`, 64 bits wide. -/
structure MipStatsConfig where
  blockCountConsidered : UInt64

/-- `MipStoreStats`: the last announced versions, oldest first, and the number
of times each version is announced among them. -/
structure MipStoreStats where
  config : MipStatsConfig
  latestAnnouncements : List UInt32
  networkVersionCounters : SortedMap UInt32 UInt64

namespace MipStoreStats

/-- `MipStoreStats::new`: nothing announced yet.  `VecDeque::with_capacity`
panics with `capacity overflow` when `Layout::array` cannot lay out
`block_count_considered` announcements of four bytes, past
`(isize::MAX - 3) / 4` of them.  `HashMap::with_capacity` has a capacity
overflow of its own past about `7 * 2 ^ 55` entries, where the queue's
allocation of more than `2 ^ 59` bytes has already failed and aborted the
process: allocation failure is not modelled. -/
def new (config : MipStatsConfig) : Except String MipStoreStats :=
  if (2 ^ 63 - 4) / 4 < config.blockCountConsidered.toNat then .error "capacity overflow"
  else .ok ⟨config, [], ∅⟩

/-- A queue that can be laid out gives empty statistics. -/
theorem new_eq_ok {config : MipStatsConfig}
    (h : config.blockCountConsidered.toNat ≤ (2 ^ 63 - 4) / 4) :
    new config = .ok ⟨config, [], ∅⟩ := by
  rw [new, if_neg (not_lt.mpr h)]

/-- Statistics built by `new` start empty, with a queue that can be laid out. -/
theorem eq_of_new_eq_ok {config : MipStatsConfig} {stats : MipStoreStats}
    (h : new config = .ok stats) :
    config.blockCountConsidered.toNat ≤ (2 ^ 63 - 4) / 4 ∧ stats = ⟨config, [], ∅⟩ := by
  unfold new at h
  split at h
  · cases h
  · next hfit =>
    cases h
    exact ⟨not_lt.mp hfit, rfl⟩

/-- The counter of a newly announced version:
`entry(v).and_modify(|v| *v = v.saturating_add(1)).or_insert(1)`. -/
def countAnnouncement (counters : SortedMap UInt32 UInt64) (version : UInt32) :
    SortedMap UInt32 UInt64 :=
  counters.insert version (match counters.get? version with
    | some count => saturatingAdd count 1
    | none => 1)

/-- The counter of a version that leaves the window: decremented, saturating,
and removed at zero; nothing when it has no counter. -/
def forgetAnnouncement (counters : SortedMap UInt32 UInt64) (version : UInt32) :
    SortedMap UInt32 UInt64 :=
  match counters.get? version with
  | some count =>
    let count := saturatingSub count 1
    if count = 0 then counters.erase version else counters.insert version count
  | none => counters

/-- The statistics part of `update_network_version_stats` for one announced
version. -/
def recordAnnouncement (self : MipStoreStats) (announced : UInt32) : MipStoreStats :=
  -- `pop_front` once the queue holds `block_count_considered` versions
  let full := decide (self.config.blockCountConsidered.toNat ≤ self.latestAnnouncements.length)
  let removed := if full then self.latestAnnouncements.head? else none
  let kept := if full then self.latestAnnouncements.tail else self.latestAnnouncements
  let counters := countAnnouncement self.networkVersionCounters announced
  { self with
    latestAnnouncements := kept ++ [announced]
    networkVersionCounters := match removed with
      | some removedVersion => forgetAnnouncement counters removedVersion
      | none => counters }

/-- The statistics after a call: a header without network versions changes
nothing, and a missing announcement counts as version 0. -/
def recordNetworkVersions (self : MipStoreStats)
    (networkVersions : Option (UInt32 × Option UInt32)) : MipStoreStats :=
  match networkVersions with
  | none => self
  | some (_, announced) => self.recordAnnouncement (announced.getD 0)

/-- The vote ratio of a version: its counter over `block_count_considered`. -/
def voteRatio (self : MipStoreStats) (version : UInt32) : ℚ :=
  ((self.networkVersionCounters.get? version).getD 0).toNat /
    self.config.blockCountConsidered.toNat

end MipStoreStats

namespace MipStoreRaw

/-- `MipStoreRaw::advance_states_on_updated_stats`: every MIP that is not
final is advanced with the vote ratio of its version.  `Ratio::new` panics on
a zero `block_count_considered`, which the first MIP that is not final
reaches. -/
def advanceStatesOnUpdatedStats (self : MipStoreRaw) (stats : MipStoreStats)
    (slotTimestamp : MassaTime) : Except String MipStoreRaw :=
  if stats.config.blockCountConsidered = 0 ∧ self.store.entries.any (fun e => !e.2.isFinal) then
    .error "denominator == 0"
  else
    .ok ⟨self.store.mapVals fun mi state =>
      if state.isFinal then state
      else state.onAdvance (mi.advance (stats.voteRatio mi.version) slotTimestamp)⟩

/-- `MipStoreRaw::update_network_version_stats`, with `self.stats` passed
beside the store. -/
def updateNetworkVersionStats (self : MipStoreRaw) (stats : MipStoreStats)
    (slotTimestamp : MassaTime) (networkVersions : Option (UInt32 × Option UInt32)) :
    Except String (MipStoreRaw × MipStoreStats) := do
  -- the `Ratio::new` of the update warning panics on a zero denominator
  if (networkVersions.any fun versions => versions.2.getD 0 != 0) ∧
      stats.config.blockCountConsidered = 0 then
    throw "denominator == 0"
  let stats := stats.recordNetworkVersions networkVersions
  let self ← self.advanceStatesOnUpdatedStats stats slotTimestamp
  pure (self, stats)

/-- A sequence of calls of `update_network_version_stats`, one per block. -/
def runNetworkVersionStats (self : MipStoreRaw) (stats : MipStoreStats)
    (calls : List (MassaTime × Option (UInt32 × Option UInt32))) :
    Except String (MipStoreRaw × MipStoreStats) :=
  calls.foldlM (fun acc call => acc.1.updateNetworkVersionStats acc.2 call.1 call.2) (self, stats)

end MipStoreRaw

/-- The versions that a sequence of calls announces, a missing announcement
as version 0. -/
def announcements (calls : List (MassaTime × Option (UInt32 × Option UInt32))) : List UInt32 :=
  calls.filterMap fun call => call.2.map fun versions => versions.2.getD 0

namespace MipStoreStats

/-! ### The counters -/

/-- The counters count the versions of `l`: a version has a counter exactly
when it occurs, and the counter is its number of occurrences. -/
def Counts (counters : SortedMap UInt32 UInt64) (l : List UInt32) : Prop :=
  ∀ v, (counters.get? v).map UInt64.toNat = if l.count v = 0 then none else some (l.count v)

/-- A version with a counter occurs that many times. -/
theorem Counts.toNat_of_get? {counters : SortedMap UInt32 UInt64} {l : List UInt32}
    (h : Counts counters l) {v : UInt32} {count : UInt64} (hv : counters.get? v = some count) :
    count.toNat = l.count v ∧ l.count v ≠ 0 := by
  have hcount := h v
  rw [hv, Option.map_some] at hcount
  by_cases h0 : l.count v = 0
  · rw [if_pos h0] at hcount
    cases hcount
  · rw [if_neg h0] at hcount
    exact ⟨Option.some.inj hcount, h0⟩

/-- A version without a counter does not occur. -/
theorem Counts.count_eq_zero {counters : SortedMap UInt32 UInt64} {l : List UInt32}
    (h : Counts counters l) {v : UInt32} (hv : counters.get? v = none) : l.count v = 0 := by
  have hcount := h v
  rw [hv, Option.map_none] at hcount
  by_cases h0 : l.count v = 0
  · exact h0
  · rw [if_neg h0] at hcount
    cases hcount

/-- **Counting a new announcement**, when its counter does not saturate. -/
theorem countAnnouncement_counts {counters : SortedMap UInt32 UInt64} {l : List UInt32}
    (h : Counts counters l) {v : UInt32} (hfit : l.count v + 1 < 2 ^ 64) :
    Counts (countAnnouncement counters v) (l ++ [v]) := by
  intro w
  rw [countAnnouncement, SortedMap.get?_insert, List.count_append, List.count_singleton]
  by_cases hw : w = v
  · subst hw
    -- the counter of `w` is its old count plus one
    have hnew : (match counters.get? w with
        | some count => saturatingAdd count 1
        | none => 1).toNat = l.count w + 1 := by
      cases hget : counters.get? w with
      | some count =>
        obtain ⟨hcount, -⟩ := h.toNat_of_get? hget
        rw [toNat_saturatingAdd (by rw [hcount, UInt64.toNat_one]; exact hfit), hcount,
          UInt64.toNat_one]
      | none =>
        rw [h.count_eq_zero hget]
        rfl
    rw [if_pos rfl, Option.map_some, hnew, if_pos (beq_self_eq_true w),
      if_neg (Nat.succ_ne_zero _)]
  · rw [if_neg hw, beq_false_of_ne (Ne.symm hw), if_neg Bool.false_ne_true, Nat.add_zero]
    exact h w

/-- **Forgetting the oldest announcement**: its counter drops by one, and
goes when it reaches zero. -/
theorem forgetAnnouncement_counts {counters : SortedMap UInt32 UInt64} {r : UInt32}
    {l : List UInt32} (h : Counts counters (r :: l)) :
    Counts (forgetAnnouncement counters r) l := by
  -- `r` occurs, so it has a counter, one more than its count in `l`
  obtain ⟨count, hget⟩ : ∃ count, counters.get? r = some count := by
    cases hget : counters.get? r with
    | some count => exact ⟨count, rfl⟩
    | none => exact absurd (h.count_eq_zero hget) (by simp)
  obtain ⟨hcount, -⟩ := h.toNat_of_get? hget
  rw [List.count_cons_self] at hcount
  have hdec : (saturatingSub count 1).toNat = l.count r := by
    rw [toNat_saturatingSub, hcount, UInt64.toNat_one, Nat.add_sub_cancel]
  intro w
  have hrest : w ≠ r → (counters.get? w).map UInt64.toNat =
      if l.count w = 0 then none else some (l.count w) := fun hw => by
    rw [h w, List.count_cons_of_ne (Ne.symm hw)]
  rw [forgetAnnouncement, hget]
  dsimp only
  by_cases hzero : saturatingSub count 1 = 0
  · -- the counter reached zero and is removed
    rw [if_pos hzero, SortedMap.get?_erase]
    by_cases hw : w = r
    · subst hw
      have h0 : l.count w = 0 := by rw [← hdec, hzero, UInt64.toNat_zero]
      rw [if_pos rfl, if_pos h0]
      rfl
    · rw [if_neg hw]
      exact hrest hw
  · rw [if_neg hzero, SortedMap.get?_insert]
    by_cases hw : w = r
    · subst hw
      have hpos : l.count w ≠ 0 := fun h0 => hzero (UInt64.toNat_inj.mp (by rw [hdec, h0]; rfl))
      rw [if_pos rfl, Option.map_some, hdec, if_neg hpos]
    · rw [if_neg hw]
      exact hrest hw

/-- With the counters counting the window, the vote ratio of a version is
its number of announcements in the window over `block_count_considered`. -/
theorem Counts.voteRatio {self : MipStoreStats}
    (h : Counts self.networkVersionCounters self.latestAnnouncements) (v : UInt32) :
    self.voteRatio v =
      (self.latestAnnouncements.count v : ℚ) / self.config.blockCountConsidered.toNat := by
  rw [MipStoreStats.voteRatio]
  cases hget : self.networkVersionCounters.get? v with
  | some count => rw [Option.getD_some, (h.toNat_of_get? hget).1]
  | none => rw [Option.getD_none, h.count_eq_zero hget, UInt64.toNat_zero]

/-! ### The window -/

/-- The statistics after the announcements `announced`: the queue holds the
last `block_count_considered` of them, and the counters count the queue. -/
structure Window (stats : MipStoreStats) (announced : List UInt32) : Prop where
  latest : stats.latestAnnouncements =
    announced.drop (announced.length - stats.config.blockCountConsidered.toNat)
  counts : Counts stats.networkVersionCounters stats.latestAnnouncements

theorem Window.empty (config : MipStatsConfig) : Window ⟨config, [], ∅⟩ [] where
  latest := List.drop_nil.symm
  counts := fun _ => rfl

theorem Window.length_le {self : MipStoreStats} {announced : List UInt32}
    (h : Window self announced) :
    self.latestAnnouncements.length ≤ self.config.blockCountConsidered.toNat := by
  rw [h.latest, List.length_drop]
  omega

/-- A full window drops its oldest announcement. -/
theorem recordAnnouncement_of_full {self : MipStoreStats} {r : UInt32} {kept : List UInt32}
    (hq : self.latestAnnouncements = r :: kept)
    (hfull : self.config.blockCountConsidered.toNat ≤ self.latestAnnouncements.length)
    (announced : UInt32) :
    self.recordAnnouncement announced = { self with
      latestAnnouncements := kept ++ [announced]
      networkVersionCounters :=
        forgetAnnouncement (countAnnouncement self.networkVersionCounters announced) r } := by
  rw [hq] at hfull
  simp only [recordAnnouncement, hq, decide_eq_true hfull, if_true, List.head?_cons,
    List.tail_cons]

theorem recordAnnouncement_of_not_full {self : MipStoreStats}
    (hfull : ¬self.config.blockCountConsidered.toNat ≤ self.latestAnnouncements.length)
    (announced : UInt32) :
    self.recordAnnouncement announced = { self with
      latestAnnouncements := self.latestAnnouncements ++ [announced]
      networkVersionCounters := countAnnouncement self.networkVersionCounters announced } := by
  simp only [recordAnnouncement, decide_eq_false hfull, Bool.false_eq_true, if_false]

/-- **One announcement.**  Recording a version keeps the window, when its
counter does not saturate. -/
theorem Window.recordAnnouncement {self : MipStoreStats} {announced : List UInt32}
    (h : Window self announced) (hN : 1 ≤ self.config.blockCountConsidered.toNat) {v : UInt32}
    (hfit : self.latestAnnouncements.count v + 1 < 2 ^ 64) :
    Window (self.recordAnnouncement v) (announced ++ [v]) := by
  have hlen := h.length_le
  have hlatest := h.latest
  have hqlen := congrArg List.length hlatest
  rw [List.length_drop] at hqlen
  by_cases hfull : self.config.blockCountConsidered.toNat ≤ self.latestAnnouncements.length
  · -- the oldest announcement leaves the window
    obtain ⟨r, kept, hq⟩ : ∃ r kept, self.latestAnnouncements = r :: kept :=
      List.exists_cons_of_ne_nil (List.ne_nil_of_length_pos (by omega))
    rw [recordAnnouncement_of_full hq hfull]
    refine ⟨?_, forgetAnnouncement_counts ?_⟩
    · -- one more announcement, one more dropped from the front
      have hdrop : announced.drop (announced.length - self.config.blockCountConsidered.toNat + 1) =
          kept := by
        rw [← List.drop_drop, ← hlatest, hq, List.drop_one, List.tail_cons]
      show kept ++ [v] = (announced ++ [v]).drop
        ((announced ++ [v]).length - self.config.blockCountConsidered.toNat)
      rw [List.length_append, List.length_singleton,
        List.drop_append_of_le_length (by omega), ← hdrop]
      congr 2
      omega
    · rw [← List.cons_append, ← hq]
      exact countAnnouncement_counts h.counts hfit
  · -- the window is not full: it holds every announcement so far
    rw [recordAnnouncement_of_not_full hfull]
    have hall : announced.length + 1 - self.config.blockCountConsidered.toNat = 0 := by omega
    refine ⟨?_, countAnnouncement_counts h.counts hfit⟩
    show self.latestAnnouncements ++ [v] = (announced ++ [v]).drop
      ((announced ++ [v]).length - self.config.blockCountConsidered.toNat)
    rw [List.length_append, List.length_singleton, hall, List.drop_zero, hlatest,
      show announced.length - self.config.blockCountConsidered.toNat = 0 by omega, List.drop_zero]

@[simp] theorem config_recordNetworkVersions (stats : MipStoreStats)
    (networkVersions : Option (UInt32 × Option UInt32)) :
    (stats.recordNetworkVersions networkVersions).config = stats.config := by
  cases networkVersions <;> rfl

@[simp] theorem recordNetworkVersions_some (stats : MipStoreStats) (current : UInt32)
    (announced : Option UInt32) :
    stats.recordNetworkVersions (some (current, announced)) =
      stats.recordAnnouncement (announced.getD 0) := rfl

@[simp] theorem config_foldl_recordNetworkVersions (stats : MipStoreStats)
    (calls : List (MassaTime × Option (UInt32 × Option UInt32))) :
    (calls.foldl (fun stats call => stats.recordNetworkVersions call.2) stats).config =
      stats.config := by
  induction calls generalizing stats with
  | nil => rfl
  | cons call calls ih => rw [List.foldl_cons, ih, config_recordNetworkVersions]

/-- **One call.**  A call keeps the window, when `block_count_considered`
is below `u64::MAX`. -/
theorem Window.recordNetworkVersions {stats : MipStoreStats} {announced : List UInt32}
    (h : Window stats announced) (hN : 1 ≤ stats.config.blockCountConsidered.toNat)
    (hmax : stats.config.blockCountConsidered.toNat < 2 ^ 64 - 1)
    (networkVersions : Option (UInt32 × Option UInt32)) :
    Window (stats.recordNetworkVersions networkVersions)
      (announced ++ (networkVersions.map fun versions => versions.2.getD 0).toList) := by
  cases networkVersions with
  | none => simpa [MipStoreStats.recordNetworkVersions] using h
  | some versions =>
    -- a counter counts at most the whole window, so it does not saturate
    have hcount := List.count_le_length (a := versions.2.getD 0) (l := stats.latestAnnouncements)
    exact h.recordAnnouncement hN (by have := h.length_le; omega)

/-- **A run of calls** keeps the window. -/
theorem window_foldl_recordNetworkVersions {stats : MipStoreStats} {announced : List UInt32}
    (h : Window stats announced) (hN : 1 ≤ stats.config.blockCountConsidered.toNat)
    (hmax : stats.config.blockCountConsidered.toNat < 2 ^ 64 - 1)
    (calls : List (MassaTime × Option (UInt32 × Option UInt32))) :
    Window (calls.foldl (fun stats call => stats.recordNetworkVersions call.2) stats)
      (announced ++ announcements calls) := by
  induction calls generalizing stats announced with
  | nil => simpa [announcements] using h
  | cons call calls ih =>
    have hstep := h.recordNetworkVersions hN hmax call.2
    have hrest := ih hstep (by simpa using hN) (by simpa using hmax)
    rw [List.foldl_cons]
    -- the first call announces at most one version
    have hcons : announcements (call :: calls) =
        (call.2.map fun versions => versions.2.getD 0).toList ++ announcements calls := by
      unfold announcements
      rw [List.filterMap_cons]
      cases call.2 <;> rfl
    rwa [hcons, ← List.append_assoc]

end MipStoreStats

namespace MipStoreRaw

/-- A call with a non-zero `block_count_considered` does not panic: it
records the announcement and advances the MIPs that are not final. -/
theorem updateNetworkVersionStats_eq_ok {self : MipStoreRaw} {stats : MipStoreStats}
    (hN : stats.config.blockCountConsidered ≠ 0) (slotTimestamp : MassaTime)
    (networkVersions : Option (UInt32 × Option UInt32)) :
    self.updateNetworkVersionStats stats slotTimestamp networkVersions =
      .ok (⟨self.store.mapVals fun mi state =>
          if state.isFinal then state
          else state.onAdvance (mi.advance
            ((stats.recordNetworkVersions networkVersions).voteRatio mi.version) slotTimestamp)⟩,
        stats.recordNetworkVersions networkVersions) := by
  have hN' : (stats.recordNetworkVersions networkVersions).config.blockCountConsidered ≠ 0 := by
    rwa [MipStoreStats.config_recordNetworkVersions]
  simp only [updateNetworkVersionStats, advanceStatesOnUpdatedStats, hN, hN', and_false,
    if_false]
  rfl

/-- A run with a non-zero `block_count_considered` does not panic. -/
theorem runNetworkVersionStats_eq_ok {stats : MipStoreStats}
    (hN : stats.config.blockCountConsidered ≠ 0) (self : MipStoreRaw)
    (calls : List (MassaTime × Option (UInt32 × Option UInt32))) :
    ∃ self', self.runNetworkVersionStats stats calls =
      .ok (self', calls.foldl (fun stats call => stats.recordNetworkVersions call.2) stats) := by
  induction calls generalizing self stats with
  | nil => exact ⟨self, rfl⟩
  | cons call calls ih =>
    have hN' : (stats.recordNetworkVersions call.2).config.blockCountConsidered ≠ 0 := by
      rwa [MipStoreStats.config_recordNetworkVersions]
    obtain ⟨self', hrun⟩ := ih hN' ⟨self.store.mapVals fun mi state =>
        if state.isFinal then state
        else state.onAdvance (mi.advance
          ((stats.recordNetworkVersions call.2).voteRatio mi.version) call.1)⟩
    refine ⟨self', ?_⟩
    rw [runNetworkVersionStats, List.foldlM_cons, updateNetworkVersionStats_eq_ok hN,
      Except.ok_bind]
    exact hrun

end MipStoreRaw

/-- **The vote statistics are a sliding window.**  With
`1 ≤ block_count_considered`, from the statistics `MipStoreStats::new`
builds, every sequence of calls of `update_network_version_stats` succeeds,
the queue holds the last `block_count_considered` announcements, the counters
count them with no zero entry, and the next call advances each MIP that is not
final with the count of its version in the window over
`block_count_considered`.  A queue that can be laid out holds far fewer than
`u64::MAX` announcements, so no counter saturates. -/
theorem networkVersionStats_slidingWindow {blockCountConsidered : UInt64} {stats : MipStoreStats}
    (hN : 1 ≤ blockCountConsidered.toNat)
    (hnew : MipStoreStats.new ⟨blockCountConsidered⟩ = .ok stats)
    (self : MipStoreRaw) (calls : List (MassaTime × Option (UInt32 × Option UInt32))) :
    ∃ self' stats',
      self.runNetworkVersionStats stats calls = .ok (self', stats') ∧
      stats'.latestAnnouncements = (announcements calls).drop
        ((announcements calls).length - blockCountConsidered.toNat) ∧
      (∀ v, (stats'.networkVersionCounters.get? v).map UInt64.toNat =
        if stats'.latestAnnouncements.count v = 0 then none
        else some (stats'.latestAnnouncements.count v)) ∧
      ∀ slotTimestamp networkVersions, ∃ self'' stats'',
        self'.updateNetworkVersionStats stats' slotTimestamp networkVersions =
          .ok (self'', stats'') ∧
        ∀ mi, self''.store.get? mi = (self'.store.get? mi).map fun state =>
          if state.isFinal then state
          else state.onAdvance (mi.advance
            ((stats''.latestAnnouncements.count mi.version : ℚ) / blockCountConsidered.toNat)
            slotTimestamp) := by
  obtain ⟨hfit, rfl⟩ := MipStoreStats.eq_of_new_eq_ok hnew
  have hmax : blockCountConsidered.toNat < 2 ^ 64 - 1 := lt_of_le_of_lt hfit (by norm_num)
  have hN0 : blockCountConsidered ≠ 0 := fun h0 => by
    rw [h0, UInt64.toNat_zero] at hN
    omega
  obtain ⟨self', hrun⟩ := MipStoreRaw.runNetworkVersionStats_eq_ok
    (show (⟨⟨blockCountConsidered⟩, [], ∅⟩ : MipStoreStats).config.blockCountConsidered ≠ 0 from
      hN0) self calls
  have hwin := MipStoreStats.window_foldl_recordNetworkVersions (MipStoreStats.Window.empty _) hN
    hmax calls
  have hconfig : (calls.foldl (fun stats call => stats.recordNetworkVersions call.2)
      (⟨⟨blockCountConsidered⟩, [], ∅⟩ : MipStoreStats)).config = ⟨blockCountConsidered⟩ :=
    MipStoreStats.config_foldl_recordNetworkVersions _ calls
  rw [List.nil_append] at hwin
  have hlatest := hwin.latest
  rw [hconfig] at hlatest
  refine ⟨self', _, hrun, hlatest, hwin.counts, fun slotTimestamp networkVersions => ?_⟩
  -- the next call keeps the window, so its ratios are counts in the window
  have hnext := hwin.recordNetworkVersions (by rw [hconfig]; exact hN) (by rw [hconfig]; exact hmax)
    networkVersions
  refine ⟨_, _, MipStoreRaw.updateNetworkVersionStats_eq_ok (by rw [hconfig]; exact hN0)
    slotTimestamp networkVersions, fun mi => ?_⟩
  rw [SortedMap.get?_mapVals, hnext.counts.voteRatio, MipStoreStats.config_recordNetworkVersions,
    hconfig]

/-- A window of three blocks after five headers, the third without network
versions and the second without an announcement. -/
theorem networkVersionStats_slidingWindow_three_blocks :
    ∃ stats self' stats', MipStoreStats.new ⟨3⟩ = .ok stats ∧
      (⟨∅⟩ : MipStoreRaw).runNetworkVersionStats stats
        [(⟨0⟩, some (1, some 2)), (⟨1⟩, some (1, none)), (⟨2⟩, none), (⟨3⟩, some (1, some 2)),
          (⟨4⟩, some (1, some 2))] = .ok (self', stats') ∧
      stats'.latestAnnouncements = [0, 2, 2] ∧
      (stats'.networkVersionCounters.get? 2).map UInt64.toNat = some 2 := by
  have hnew : MipStoreStats.new ⟨3⟩ = .ok ⟨⟨3⟩, [], ∅⟩ := MipStoreStats.new_eq_ok (by decide)
  obtain ⟨self', stats', hrun, hlatest, hcounts, -⟩ :=
    @networkVersionStats_slidingWindow 3 _ (by decide) hnew ⟨∅⟩
      [(⟨0⟩, some (1, some 2)), (⟨1⟩, some (1, none)), (⟨2⟩, none), (⟨3⟩, some (1, some 2)),
        (⟨4⟩, some (1, some 2))]
  have hlatest' : stats'.latestAnnouncements = [0, 2, 2] := by
    rw [hlatest]
    rfl
  refine ⟨_, self', stats', hnew, hrun, hlatest', ?_⟩
  rw [hcounts, hlatest']
  rfl

end Massa
