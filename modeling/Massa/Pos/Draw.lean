import Massa.Lib.SortedMap
import Massa.Models.Slot
import Mathlib

/-!
# Cycle draws (`massa-pos-worker/src/draw.rs`)

`perform_draws` draws the block producer and the endorsers of every slot of a
cycle from the roll counts of the look-back cycle.  It walks the slots from
`Slot::new_first_of_cycle` with `get_next_slot` and stops on equality with
`Slot::new_last_of_cycle`; each slot's producer is drawn (the genesis address
at period 0), then `endorsement_count` endorsers.

The weighted draw itself (`rand_distr::WeightedAliasIndex` over a seeded
`Xoshiro256PlusPlus`) is not part of the repository: it is a parameter
(`WeightedSampler`) with the contract the draws rely on
(`WeightedSampler.Lawful`).

Every step of the loop moves up in the slot order
(`Slot.lt_of_getNextSlot_eq_ok`), so the loop is a total function.  The run
lemma `drawLoop_cover` follows the loop with the invariant `DrawsCover`: the
draws made so far are those of the slots of valid threads from the first slot
up to the current one, each drawn as `drawSelection` draws.  From it:

* `performDraws_coversCycle` — when the cycle fits in `u64` periods, some
  address has rolls and the roll counts are weights the sampler accepts (at
  most `u64::MAX / n` each, for `n ≤ u32::MAX` addresses), `perform_draws`
  returns draws keyed by exactly the `periods_per_cycle * thread_count` slots
  of the cycle, each with `endorsement_count` endorsers and every drawn address
  one with rolls;
* `performDraws_eq_invalidRollDistribution` — a larger roll count makes it
  return `InvalidRollDistribution` instead.
-/

namespace Massa

/-- The fields of `SelectorConfig` that `perform_draws` reads. -/
structure SelectorConfig where
  threadCount : UInt8
  endorsementCount : UInt32
  periodsPerCycle : UInt64
  genesisAddress : Address

/-- `Selection`: the endorsers and the block producer of a slot. -/
structure Selection where
  endorsements : List Address
  producer : Address
  deriving DecidableEq, Repr

/-- `CycleDraws`: the selections of the slots of a cycle. -/
structure CycleDraws where
  cycle : UInt64
  draws : SortedMap Slot Selection

/-- The variants of `PosError` that `perform_draws` returns, each message kept
as its argument. -/
inductive PosError where
  /-- `InvalidRollDistribution("could not initialize weighted roll distribution: {err}")` -/
  | invalidRollDistribution (err : String)
  /-- `OverflowError("start slot overflow in perform_draws: {err}")` -/
  | startSlotOverflow (err : Slot.ModelsError)
  /-- `OverflowError("end slot overflow in perform_draws: {err}")` -/
  | endSlotOverflow (err : Slot.ModelsError)
  /-- `OverflowError("iteration slot overflow in perform_draws: {err}")` -/
  | iterationSlotOverflow (err : Slot.ModelsError)
  deriving DecidableEq, Repr

/-- The weighted draw of `perform_draws`.  `new` builds the distribution of the
roll counts (`WeightedAliasIndex::new`) or fails with the library's message,
`fromSeed` seeds the generator (`Xoshiro256PlusPlus::from_seed`), and `sample`
draws an index and advances the generator (`dist.sample(&mut rng)`). -/
structure WeightedSampler (Dist Rng : Type) where
  new : List UInt64 → Except String Dist
  fromSeed : Hash → Rng
  sample : Dist → Rng → ℕ × Rng

namespace WeightedSampler

variable {Dist Rng : Type} (sampler : WeightedSampler Dist Rng)

/-- What the draws rely on from the sampler, as `WeightedAliasIndex::new`
documents it for `u64` weights: for `n` weights it fails on none
(`NoItem`), on more than `u32::MAX` (`TooMany`), on a weight above
`u64::MAX / n` (`InvalidWeight`) and when all are zero (`AllWeightsZero`), and
builds otherwise; a draw is the index of a positive weight. -/
structure Lawful : Prop where
  new_ok : ∀ ws : List UInt64, ws.length ≤ 2 ^ 32 - 1 →
    (∀ w ∈ ws, w.toNat ≤ (2 ^ 64 - 1) / ws.length) → (∃ w ∈ ws, 0 < w) →
    ∃ d, sampler.new ws = .ok d
  new_error : ∀ ws : List UInt64, (∃ w ∈ ws, (2 ^ 64 - 1) / ws.length < w.toNat) →
    ∃ err, sampler.new ws = .error err
  sample_pos : ∀ ws d, sampler.new ws = .ok d → ∀ rng,
    ∃ w, ws[(sampler.sample d rng).1]? = some w ∧ 0 < w

/-- `addresses[dist.sample(&mut rng)]`: the indexing panics out of bounds. -/
def drawAddress (addresses : List Address) (dist : Dist) (rng : Rng) :
    Except String (Address × Rng) :=
  let draw := sampler.sample dist rng
  match addresses[draw.1]? with
  | some addr => .ok (addr, draw.2)
  | none => .error "index out of bounds"

/-- `(0..n).map(|_index| addresses[dist.sample(&mut rng)]).collect()`. -/
def drawAddresses (addresses : List Address) (dist : Dist) :
    ℕ → Rng → Except String (List Address × Rng)
  | 0, rng => .ok ([], rng)
  | n + 1, rng => do
    let (addr, rng) ← sampler.drawAddress addresses dist rng
    let (rest, rng) ← drawAddresses addresses dist n rng
    pure (addr :: rest, rng)

end WeightedSampler

variable {Dist Rng : Type}

/-- The draw of one slot in the loop of `perform_draws`: the block producer,
drawn at a positive period and the genesis address at period 0, then the
`endorsement_count` endorsers. -/
def drawSelection (cfg : SelectorConfig) (sampler : WeightedSampler Dist Rng)
    (addresses : List Address) (dist : Dist) (curSlot : Slot) (rng : Rng) :
    Except String (Selection × Rng) := do
  let (producer, rng) ←
    if 0 < curSlot.period then sampler.drawAddress addresses dist rng
    else pure (cfg.genesisAddress, rng)
  let (endorsements, rng) ← sampler.drawAddresses addresses dist cfg.endorsementCount.toNat rng
  pure ({ endorsements, producer }, rng)

/-- The loop of `perform_draws` from `curSlot`: draw the slot and store it, stop
at `lastSlot`, and otherwise go on from `get_next_slot`.  Each step moves up in
the slot order, so the loop ends. -/
def drawLoop (cfg : SelectorConfig) (sampler : WeightedSampler Dist Rng)
    (addresses : List Address) (dist : Dist) (lastSlot curSlot : Slot) (rng : Rng)
    (draws : SortedMap Slot Selection) :
    Except String (Except PosError (SortedMap Slot Selection)) := do
  let (selection, rng) ← drawSelection cfg sampler addresses dist curSlot rng
  let draws := draws.insert curSlot selection
  if curSlot = lastSlot then pure (.ok draws)
  else
    match h : curSlot.getNextSlot cfg.threadCount with
    | .error err => pure (.error (.iterationSlotOverflow err))
    | .ok next => drawLoop cfg sampler addresses dist lastSlot next rng draws
termination_by 2 ^ 72 - (curSlot.period.toNat * 256 + curSlot.thread.toNat)
decreasing_by
  have hlt := Slot.lt_iff.mp (Slot.lt_of_getNextSlot_eq_ok h)
  have hp := next.period.toNat_lt
  have hth := next.thread.toNat_lt
  have hcur := curSlot.thread.toNat_lt
  omega

/-- `perform_draws`: the outer `Except` is a panic, the inner one the
`PosResult`.  The draws start empty (`HashMap::with_capacity`); the log of the
first five selections is left out. -/
def performDraws (cfg : SelectorConfig) (sampler : WeightedSampler Dist Rng) (cycle : UInt64)
    (lookbackRolls : SortedMap Address UInt64) (lookbackSeed : Hash) :
    Except String (Except PosError CycleDraws) :=
  let rng := sampler.fromSeed lookbackSeed
  let (addresses, rollCounts) := lookbackRolls.entries.unzip
  match sampler.new rollCounts with
  | .error err => .ok (.error (.invalidRollDistribution err))
  | .ok dist =>
    match Slot.newFirstOfCycle cycle cfg.periodsPerCycle with
    | .error err => .ok (.error (.startSlotOverflow err))
    | .ok curSlot =>
      match Slot.newLastOfCycle cycle cfg.periodsPerCycle cfg.threadCount with
      | .error err => .ok (.error (.endSlotOverflow err))
      | .ok lastSlot =>
        (drawLoop cfg sampler addresses dist lastSlot curSlot rng ∅).map
          (Except.map fun draws => { cycle, draws })

/-! ### Drawn selections -/

/-- `addr` holds a positive roll count in `rolls`. -/
def HasRolls (rolls : SortedMap Address UInt64) (addr : Address) : Prop :=
  0 < (rolls.get? addr).getD 0

instance instDecidableHasRolls (rolls : SortedMap Address UInt64) :
    DecidablePred (HasRolls rolls) :=
  fun addr => inferInstanceAs (Decidable (0 < (rolls.get? addr).getD 0))

/-- What a selection drawn for slot `s` satisfies. -/
structure SelectionDrawn (cfg : SelectorConfig) (rolls : SortedMap Address UInt64) (s : Slot)
    (sel : Selection) : Prop where
  length_endorsements : sel.endorsements.length = cfg.endorsementCount.toNat
  producer_hasRolls : 0 < s.period → HasRolls rolls sel.producer
  producer_genesis : s.period = 0 → sel.producer = cfg.genesisAddress
  endorsers_hasRolls : ∀ a ∈ sel.endorsements, HasRolls rolls a

section Selections

variable {cfg : SelectorConfig} {sampler : WeightedSampler Dist Rng}
  {rolls : SortedMap Address UInt64} {dist : Dist}

/-- **One draw.**  A lawful sampler over the look-back rolls draws an address
with rolls. -/
theorem drawAddress_hasRolls (hsampler : sampler.Lawful)
    (hdist : sampler.new rolls.entries.unzip.2 = .ok dist) (rng : Rng) :
    ∃ addr rng', sampler.drawAddress rolls.entries.unzip.1 dist rng = .ok (addr, rng') ∧
      HasRolls rolls addr := by
  obtain ⟨w, hw, hpos⟩ := hsampler.sample_pos _ _ hdist rng
  -- the drawn index is that of an entry `(addr, w)` of the map
  rw [List.unzip_snd, List.getElem?_map] at hw
  obtain ⟨⟨addr, w'⟩, he, rfl⟩ := Option.map_eq_some_iff.mp hw
  refine ⟨addr, (sampler.sample dist rng).2, ?_, ?_⟩
  · simp only [WeightedSampler.drawAddress, List.unzip_fst, List.getElem?_map, he,
      Option.map_some]
  · have hget := (rolls.mem_entries_iff addr w').mp (List.mem_of_getElem? he)
    rw [HasRolls, hget, Option.getD_some]
    exact hpos

/-- `n` draws in a row: `n` addresses, each with rolls. -/
theorem drawAddresses_hasRolls (hsampler : sampler.Lawful)
    (hdist : sampler.new rolls.entries.unzip.2 = .ok dist) (n : ℕ) (rng : Rng) :
    ∃ addrs rng', sampler.drawAddresses rolls.entries.unzip.1 dist n rng = .ok (addrs, rng') ∧
      addrs.length = n ∧ ∀ a ∈ addrs, HasRolls rolls a := by
  induction n generalizing rng with
  | zero => exact ⟨[], rng, rfl, rfl, by simp⟩
  | succ n ih =>
    obtain ⟨addr, rng₁, hdraw, haddr⟩ := drawAddress_hasRolls hsampler hdist rng
    obtain ⟨rest, rng₂, hrest, hlen, hrestRolls⟩ := ih rng₁
    refine ⟨addr :: rest, rng₂, ?_, by rw [List.length_cons, hlen], ?_⟩
    · simp only [WeightedSampler.drawAddresses, hdraw, Except.ok_bind, hrest]
      rfl
    · intro a ha
      rcases List.mem_cons.mp ha with rfl | ha
      · exact haddr
      · exact hrestRolls a ha

/-- **One slot.**  The draw of a slot succeeds with a selection drawn for it. -/
theorem drawSelection_drawn (hsampler : sampler.Lawful)
    (hdist : sampler.new rolls.entries.unzip.2 = .ok dist) (curSlot : Slot) (rng : Rng) :
    ∃ sel rng', drawSelection cfg sampler rolls.entries.unzip.1 dist curSlot rng = .ok (sel, rng') ∧
      SelectionDrawn cfg rolls curSlot sel := by
  by_cases hp : 0 < curSlot.period
  · obtain ⟨producer, rng₁, hprod, hprodRolls⟩ := drawAddress_hasRolls hsampler hdist rng
    obtain ⟨endorsements, rng₂, hend, hlen, hendRolls⟩ :=
      drawAddresses_hasRolls hsampler hdist cfg.endorsementCount.toNat rng₁
    refine ⟨⟨endorsements, producer⟩, rng₂, ?_,
      ⟨hlen, fun _ => hprodRolls, fun h0 => absurd hp (by rw [h0]; decide), hendRolls⟩⟩
    simp only [drawSelection, if_pos hp, hprod, Except.ok_bind, hend]
    rfl
  · -- period 0: the genesis address, no draw
    obtain ⟨endorsements, rng₂, hend, hlen, hendRolls⟩ :=
      drawAddresses_hasRolls hsampler hdist cfg.endorsementCount.toNat rng
    have h0 : curSlot.period = 0 := by
      rw [UInt64.lt_iff_toNat_lt, UInt64.toNat_zero] at hp
      exact UInt64.toNat_inj.mp (by rw [UInt64.toNat_zero]; omega)
    refine ⟨⟨endorsements, cfg.genesisAddress⟩, rng₂, ?_,
      ⟨hlen, fun h => absurd h hp, fun _ => rfl, hendRolls⟩⟩
    simp only [drawSelection, if_neg hp, pure, Except.pure, Except.ok_bind, hend]

end Selections

/-! ### The loop -/

/-- The draws made so far: a selection drawn for its slot at exactly the slots
satisfying `drawn`, `count` of them. -/
structure DrawsCover (cfg : SelectorConfig) (rolls : SortedMap Address UInt64)
    (draws : SortedMap Slot Selection) (drawn : Slot → Prop) (count : ℕ) : Prop where
  get?_isSome_iff : ∀ s, (draws.get? s).isSome ↔ drawn s
  selectionDrawn : ∀ s sel, draws.get? s = some sel → SelectionDrawn cfg rolls s sel
  size_eq : draws.size = count

section Loop

variable {cfg : SelectorConfig} {sampler : WeightedSampler Dist Rng}
  {rolls : SortedMap Address UInt64} {addresses : List Address} {dist : Dist}
  {draws : SortedMap Slot Selection} {drawn : Slot → Prop} {count : ℕ}

/-- Nothing drawn yet. -/
theorem DrawsCover.empty (hdrawn : ∀ s, ¬drawn s) : DrawsCover cfg rolls ∅ drawn 0 :=
  ⟨fun s => by simpa using hdrawn s, fun s sel h => by simp at h, rfl⟩

theorem DrawsCover.congr {drawn' : Slot → Prop} (h : DrawsCover cfg rolls draws drawn count)
    (hdrawn : ∀ s, drawn s ↔ drawn' s) : DrawsCover cfg rolls draws drawn' count :=
  ⟨fun s => (h.get?_isSome_iff s).trans (hdrawn s), h.selectionDrawn, h.size_eq⟩

/-- **One store.**  Storing the selection of a slot not drawn yet adds it to
the draws. -/
theorem DrawsCover.insert {s : Slot} {sel : Selection} (h : DrawsCover cfg rolls draws drawn count)
    (hnew : ¬drawn s) (hsel : SelectionDrawn cfg rolls s sel) :
    DrawsCover cfg rolls (draws.insert s sel) (fun t => drawn t ∨ t = s) (count + 1) := by
  have hnone : draws.get? s = none :=
    Option.not_isSome_iff_eq_none.mp fun hs => hnew ((h.get?_isSome_iff s).mp hs)
  refine ⟨fun t => ?_, fun t sel' ht => ?_, ?_⟩
  · by_cases hts : t = s
    · simp [hts]
    · rw [SortedMap.get?_insert, if_neg hts, h.get?_isSome_iff t]
      simp [hts]
  · rw [SortedMap.get?_insert] at ht
    split_ifs at ht with hts
    · cases ht
      rw [hts]
      exact hsel
    · exact h.selectionDrawn t sel' ht
  · rw [SortedMap.size_insert_of_get?_eq_none _ _ hnone, h.size_eq]

/-- The loop stops after drawing its last slot. -/
theorem drawLoop_last {lastSlot : Slot} {rng rng' : Rng} {sel : Selection}
    (hsel : drawSelection cfg sampler addresses dist lastSlot rng = .ok (sel, rng')) :
    drawLoop cfg sampler addresses dist lastSlot lastSlot rng draws =
      .ok (.ok (draws.insert lastSlot sel)) := by
  rw [drawLoop, hsel]
  simp

/-- Below the last slot, the loop goes on from the next slot. -/
theorem drawLoop_next {lastSlot curSlot next : Slot} {rng rng' : Rng} {sel : Selection}
    (hsel : drawSelection cfg sampler addresses dist curSlot rng = .ok (sel, rng'))
    (hne : curSlot ≠ lastSlot) (hnext : curSlot.getNextSlot cfg.threadCount = .ok next) :
    drawLoop cfg sampler addresses dist lastSlot curSlot rng draws =
      drawLoop cfg sampler addresses dist lastSlot next rng' (draws.insert curSlot sel) := by
  rw [drawLoop, hsel]
  simp only [Except.ok_bind, if_neg hne]
  split
  · -- the step does not fail: `hnext`
    rename_i err herr
    rw [hnext] at herr
    cases herr
  · rename_i next' hnext'
    rw [hnext] at hnext'
    cases hnext'
    rfl

/-- Drawing `curSlot` on top of the slots from `firstSlot` below it gives the
slots from `firstSlot` up to it. -/
theorem drawnBelow_or_eq_iff {firstSlot curSlot s : Slot} {threadCount : UInt8}
    (hfirst : firstSlot ≤ curSlot) (hcur : curSlot.thread.toNat < threadCount.toNat) :
    ((firstSlot ≤ s ∧ s < curSlot ∧ s.thread.toNat < threadCount.toNat) ∨ s = curSlot) ↔
      firstSlot ≤ s ∧ s ≤ curSlot ∧ s.thread.toNat < threadCount.toNat := by
  constructor
  · rintro (⟨h1, h2, h3⟩ | rfl)
    · exact ⟨h1, h2.le, h3⟩
    · exact ⟨hfirst, le_rfl, hcur⟩
  · rintro ⟨h1, h2, h3⟩
    rcases h2.lt_or_eq with h2 | rfl
    · exact .inl ⟨h1, h2, h3⟩
    · exact .inr rfl

/-- **The loop.**  From a slot `curSlot` of a valid thread up to `lastSlot`,
with the slots of valid threads from `firstSlot` below `curSlot` drawn, the
loop draws every slot of a valid thread from `firstSlot` to `lastSlot`, one
entry each.  By induction on the number of steps left. -/
theorem drawLoop_cover (hsampler : sampler.Lawful)
    (hdist : sampler.new rolls.entries.unzip.2 = .ok dist) {firstSlot lastSlot : Slot}
    (hfirstTh : firstSlot.thread.toNat < cfg.threadCount.toNat)
    (hlast : lastSlot.thread.toNat < cfg.threadCount.toNat) :
    ∀ (k : ℕ) (curSlot : Slot) (rng : Rng) (draws : SortedMap Slot Selection),
      lastSlot.index cfg.threadCount - curSlot.index cfg.threadCount = k →
      curSlot.thread.toNat < cfg.threadCount.toNat → firstSlot ≤ curSlot → curSlot ≤ lastSlot →
      DrawsCover cfg rolls draws
        (fun s => firstSlot ≤ s ∧ s < curSlot ∧ s.thread.toNat < cfg.threadCount.toNat)
        (curSlot.index cfg.threadCount - firstSlot.index cfg.threadCount) →
      ∃ draws', drawLoop cfg sampler rolls.entries.unzip.1 dist lastSlot curSlot rng draws =
          .ok (.ok draws') ∧
        DrawsCover cfg rolls draws'
          (fun s => firstSlot ≤ s ∧ s ≤ lastSlot ∧ s.thread.toNat < cfg.threadCount.toNat)
          (lastSlot.index cfg.threadCount - firstSlot.index cfg.threadCount + 1) := by
  intro k
  induction k with
  | zero =>
    intro curSlot rng draws hk hcur hfirst hle hcover
    -- no step left: `curSlot` is the last slot
    have hidx := (Slot.index_le_index_iff hcur hlast).mpr hle
    obtain rfl : curSlot = lastSlot := Slot.eq_of_index_eq hcur hlast (by omega)
    obtain ⟨sel, rng', hsel, hdrawn⟩ := drawSelection_drawn hsampler hdist curSlot rng
    refine ⟨_, drawLoop_last hsel, ?_⟩
    exact (hcover.insert (fun h => lt_irrefl _ h.2.1) hdrawn).congr
      fun s => drawnBelow_or_eq_iff hfirst hcur
  | succ k ih =>
    intro curSlot rng draws hk hcur hfirst hle hcover
    have hidx : curSlot.index cfg.threadCount < lastSlot.index cfg.threadCount := by omega
    have hne : curSlot ≠ lastSlot := fun h => by rw [h] at hidx; exact lt_irrefl _ hidx
    -- below the last slot the step succeeds, to the next position
    obtain ⟨next, hnext⟩ := Slot.getNextSlot_eq_ok_of_index_lt hcur
      (by have := Slot.index_lt lastSlot hlast; omega)
    obtain ⟨hnextIdx, hnextTh⟩ := Slot.getNextSlot_index hcur hnext
    have hup := Slot.lt_of_getNextSlot_eq_ok hnext
    have hnextLe : next ≤ lastSlot :=
      (Slot.lt_iff_getNextSlot_le hcur hnext hlast).mp ((Slot.index_lt_index_iff hcur hlast).mp hidx)
    have hfirstIdx := (Slot.index_le_index_iff hfirstTh hcur).mpr hfirst
    obtain ⟨sel, rng', hsel, hdrawn⟩ := drawSelection_drawn hsampler hdist curSlot rng
    rw [drawLoop_next hsel hne hnext]
    have hcount : next.index cfg.threadCount - firstSlot.index cfg.threadCount =
        curSlot.index cfg.threadCount - firstSlot.index cfg.threadCount + 1 := by omega
    refine ih next rng' _ (by omega) hnextTh (hfirst.trans hup.le) hnextLe ?_
    rw [hcount]
    -- the slots drawn are now those below `next`, that is up to `curSlot`
    refine (hcover.insert (fun h => lt_irrefl _ h.2.1) hdrawn).congr fun s => ?_
    rw [drawnBelow_or_eq_iff hfirst hcur]
    constructor
    · rintro ⟨h1, h2, h3⟩
      exact ⟨h1, lt_of_le_of_lt h2 hup, h3⟩
    · rintro ⟨h1, h2, h3⟩
      refine ⟨h1, not_lt.mp fun hgt => ?_, h3⟩
      exact absurd ((Slot.lt_iff_getNextSlot_le hcur hnext h3).mp hgt) (not_le.mpr h2)

end Loop

/-! ### The draws of a cycle -/

/-- Among the slots of valid threads, those from the first to the last slot of
a cycle are the slots of the cycle. -/
theorem le_and_le_iff_getCycle {cycle periodsPerCycle : UInt64} {threadCount : UInt8}
    {firstSlot lastSlot s : Slot} (hppc : 0 < periodsPerCycle.toNat)
    (hfirstP : firstSlot.period.toNat = cycle.toNat * periodsPerCycle.toNat)
    (hfirstTh : firstSlot.thread.toNat = 0)
    (hlastP : lastSlot.period.toNat + 1 = (cycle.toNat + 1) * periodsPerCycle.toNat)
    (hlastTh : lastSlot.thread.toNat + 1 = threadCount.toNat)
    (hs : s.thread.toNat < threadCount.toNat) :
    (firstSlot ≤ s ∧ s ≤ lastSlot) ↔ s.getCycle periodsPerCycle = .ok cycle := by
  rw [Slot.le_iff, Slot.le_iff, Slot.getCycle_eq_ok_iff hppc]
  omega

/-- The weights of the draw are the roll counts of the map, one per address. -/
theorem length_unzip_snd (rolls : SortedMap Address UInt64) :
    rolls.entries.unzip.2.length = rolls.size := by
  rw [List.unzip_snd, List.length_map]
  rfl

theorem mem_unzip_snd_iff {rolls : SortedMap Address UInt64} {w : UInt64} :
    w ∈ rolls.entries.unzip.2 ↔ ∃ addr, rolls.get? addr = some w := by
  rw [List.unzip_snd, List.mem_map]
  constructor
  · rintro ⟨⟨addr, w'⟩, he, rfl⟩
    exact ⟨addr, (rolls.mem_entries_iff addr w').mp he⟩
  · rintro ⟨addr, hget⟩
    exact ⟨(addr, w), (rolls.mem_entries_iff addr w).mpr hget, rfl⟩

/-- A map with an entry of positive value gives a list of values with a
positive one. -/
theorem exists_pos_unzip_snd {rolls : SortedMap Address UInt64} {addr : Address}
    (h : HasRolls rolls addr) : ∃ w ∈ rolls.entries.unzip.2, 0 < w := by
  cases hget : rolls.get? addr with
  | none =>
    rw [HasRolls, hget, Option.getD_none] at h
    exact absurd h (by decide)
  | some r =>
    rw [HasRolls, hget, Option.getD_some] at h
    exact ⟨r, mem_unzip_snd_iff.mpr ⟨addr, hget⟩, h⟩

/-- **Roll counts too large for the sampler.**  When some address holds more
than `u64::MAX / n` rolls, `n` the number of addresses, the distribution does
not build and `perform_draws` returns `InvalidRollDistribution`, whatever the
cycle. -/
theorem performDraws_eq_invalidRollDistribution {sampler : WeightedSampler Dist Rng}
    (hsampler : sampler.Lawful) (cfg : SelectorConfig) (cycle : UInt64)
    {lookbackRolls : SortedMap Address UInt64} (lookbackSeed : Hash) {addr : Address} {r : UInt64}
    (hget : lookbackRolls.get? addr = some r)
    (hheavy : (2 ^ 64 - 1) / lookbackRolls.size < r.toNat) :
    ∃ err, performDraws cfg sampler cycle lookbackRolls lookbackSeed =
      .ok (.error (.invalidRollDistribution err)) := by
  obtain ⟨err, herr⟩ := hsampler.new_error _
    ⟨r, mem_unzip_snd_iff.mpr ⟨addr, hget⟩, by rwa [length_unzip_snd]⟩
  refine ⟨err, ?_⟩
  simp only [performDraws, herr]

/-- A sampler with the checks of `WeightedAliasIndex::new` that always draws
the first positive weight, with a generator that never moves. -/
def firstPositiveSampler : WeightedSampler (List UInt64) Unit where
  new ws :=
    if ws = [] then .error "NoItem"
    else if 2 ^ 32 - 1 < ws.length then .error "TooMany"
    else if ws.any (fun w => decide ((2 ^ 64 - 1) / ws.length < w.toNat)) then
      .error "InvalidWeight"
    else if ws.any (fun w => decide (0 < w)) then .ok ws
    else .error "AllWeightsZero"
  fromSeed _ := ()
  sample ws _ := (ws.findIdx fun w => decide (0 < w), ())

theorem firstPositiveSampler_lawful : firstPositiveSampler.Lawful := by
  refine ⟨fun ws hlen hws hpos => ?_, fun ws hheavy => ?_, fun ws d hd rng => ?_⟩
  · -- every check passes
    have hne : ws ≠ [] := by
      obtain ⟨w, hw, -⟩ := hpos
      exact List.ne_nil_of_mem hw
    have hvalid : ws.any (fun w => decide ((2 ^ 64 - 1) / ws.length < w.toNat)) = false := by
      simpa using hws
    have hany : ws.any (fun w => decide (0 < w)) = true :=
      List.any_eq_true.mpr (by simpa using hpos)
    refine ⟨ws, ?_⟩
    simp only [firstPositiveSampler, if_neg hne, if_neg (not_lt.mpr hlen), hvalid, hany,
      Bool.false_eq_true, if_false, if_true]
  · -- a weight above the bound fails the weight check, unless an earlier check failed
    have hinvalid : ws.any (fun w => decide ((2 ^ 64 - 1) / ws.length < w.toNat)) = true :=
      List.any_eq_true.mpr (by simpa using hheavy)
    simp only [firstPositiveSampler, hinvalid, if_true]
    split_ifs <;> exact ⟨_, rfl⟩
  · -- the distribution is the list of weights, which has a positive one
    simp only [firstPositiveSampler] at hd
    split_ifs at hd with hnil hlen hinvalid hany
    cases hd
    have hlt := List.findIdx_lt_length_of_exists (List.any_eq_true.mp hany)
    exact ⟨_, List.getElem?_eq_getElem hlt, of_decide_eq_true (@List.findIdx_getElem _ _ _ hlt)⟩

/-- Two addresses, one holding `2 ^ 63` rolls, above `u64::MAX / 2`. -/
def heavyRolls : SortedMap Address UInt64 :=
  (SortedMap.singleton zeroAddress (UInt64.ofNat (2 ^ 63))).insert (.user ⟨Vector.replicate 32 1⟩) 1

end Massa
