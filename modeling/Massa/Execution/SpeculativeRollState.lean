import Massa.Execution.SpeculativeExecutedOps
import Massa.Execution.SpeculativeLedger
import Massa.Pos.FinalState

/-!
# The speculative roll state (`massa-execution-worker/src/speculative_roll_state.rs`)

A `SpeculativeRollState` reads the PoS data of the slot being executed
through three layers: the PoS changes added since the slot began
(`added_changes`), the outputs of the active history, and the final PoS
state with its database.  The three layers of deferred credits are merged by
three different mechanisms: `get_address_deferred_credits` walks the layers
newest first and keeps the first credit of each slot (`or_insert`),
`take_unexecuted_deferred_credits` extends the final credits by the history
oldest first and then by the added ones, and the final layer is a scan of
the database.

Both are compared with the materialised credits
(`SpeculativeRollState.materialisedCredits`): the credits the final state
holds, extended by each history output oldest first and then by the added
changes, each later entry replacing the earlier one.

* `getAddressDeferredCredits_eq` — over a range that `BTreeMap::range`
  accepts, and whose excluded start has a next slot, the layered read
  returns exactly the non-zero materialised credits of the address in the
  range.
* `takeUnexecutedDeferredCredits_eq` — taking the credits up to a slot
  returns exactly the non-zero materialised credits up to it, and zeroes
  them in the added changes.
* `trySlashDeferredCredits_slashes_in_order` — slashing an amount from the
  credits from a slot on takes the least of the amount and their total, in
  slot order, and lowers the total by what it took.  The loop is proved once
  for any view of the added credits that reads back its inserts
  (`ReadsInserts`): what is left to slash, what is untouched, the total, and
  the order.
-/

namespace Massa

/-- `SpeculativeRollState`: the final PoS state, the active history, and the
PoS changes added since the slot began. -/
structure SpeculativeRollState where
  finalState : PoSFinalState
  activeHistory : ActiveHistory
  addedChanges : PoSChanges

namespace SpeculativeRollState

/-- The loop that each layer of `get_address_deferred_credits` runs over its
credits in the range: the credit of `address` at a slot is kept unless a
newer layer already gave the slot one (`res.entry(slot).or_insert(amount)`). -/
def orInsertCredits (address : Address) (credits : List (Slot × SortedMap Address Amount))
    (res : SortedMap Slot Amount) : SortedMap Slot Amount :=
  credits.foldl (fun res e =>
    match e.2.get? address with
    | some amount => if res.contains e.1 then res else res.insert e.1 amount
    | none => res) res

/-- `SpeculativeRollState::get_address_deferred_credits`: the added changes,
then the history newest first, then the final state; the zero credits are
dropped at the end. -/
def getAddressDeferredCredits (self : SpeculativeRollState) (address : Address)
    (lo hi : Bound Slot) : Except String (SortedMap Slot Amount) := do
  let added ← self.addedChanges.deferredCredits.credits.range lo hi
  let res := orInsertCredits address added.entries ∅
  -- the history, backwards
  let res ← self.activeHistory.outputs.reverse.foldlM (fun res histItem => do
    let credits ← histItem.stateChanges.posChanges.deferredCredits.credits.range lo hi
    pure (orInsertCredits address credits.entries res)) res
  let final ← PoSFinalState.getDeferredCreditsRange self.finalState.stateCf
    self.finalState.threadCount lo hi (some address)
  let res := orInsertCredits address final.credits.entries res
  pure (res.filter fun _ v => !v.isZero)

/-- `SpeculativeRollState::get_address_deferred_credit_for_slot`: the added
changes, then the history, then the final state. -/
def getAddressDeferredCreditForSlot (self : SpeculativeRollState) (addr : Address)
    (slot : Slot) : Except String (Option Amount) :=
  match self.addedChanges.deferredCredits.getAddressCreditsForSlot addr slot with
  | some v => .ok (some v)
  | none =>
    match self.activeHistory.getAdressDeferredCreditFor addr slot with
    | some v => .ok (some v)
    | none => self.finalState.getAddressCreditsForSlot addr slot

/-- `SpeculativeRollState::take_unexecuted_deferred_credits`: the non-zero
credits up to `slot`, which are then set to zero in the added changes. -/
def takeUnexecutedDeferredCredits (self : SpeculativeRollState) (slot : Slot) :
    Except String (DeferredCredits × SpeculativeRollState) := do
  let final ← PoSFinalState.getDeferredCreditsRange self.finalState.stateCf
    self.finalState.threadCount .unbounded (.included slot) none
  let history ← self.activeHistory.getAllDeferredCreditsUntil slot
  let added ← self.addedChanges.deferredCredits.getSlotRange .unbounded (.included slot)
  let credits := ((final.extend history).extend added).removeZeros
  -- `credits.for_each`: set all the taken ones to zero in the added changes
  let deferredCredits := credits.credits.entries.foldl
    (fun acc e => e.2.entries.foldl (fun acc c => acc.insert e.1 c.1 ⟨0⟩) acc)
    self.addedChanges.deferredCredits
  pure (credits, { self with addedChanges := { self.addedChanges with deferredCredits } })

/-- `SpeculativeRollState::get_rolls`: the added roll changes, then the
history, then the final state. -/
def getRolls (self : SpeculativeRollState) (addr : Address) : Except String UInt64 :=
  match self.addedChanges.rollChanges.get? addr with
  | some count => .ok count
  | none =>
    match self.activeHistory.fetchRollCount addr with
    | some count => .ok count
    | none => self.finalState.getRollsFor addr

/-- `SpeculativeRollState::add_rolls`: `entry(buyer_addr).or_insert_with(..)`
finds the count that `get_rolls` reads (the added one, else the closure's
history-then-final read), and the count is raised, saturating. -/
def addRolls (self : SpeculativeRollState) (buyerAddr : Address) (rollCount : UInt64) :
    Except String SpeculativeRollState :=
  (self.getRolls buyerAddr).map fun count =>
    { self with addedChanges := { self.addedChanges with
        rollChanges := self.addedChanges.rollChanges.insert buyerAddr (saturatingAdd count rollCount) } }

/-- The slot at which `try_sell_rolls` reimburses a sale made at `slot`: the
last slot of the cycle three cycles later.  Both steps panic on overflow. -/
def sellCreditSlot (slot : Slot) (periodsPerCycle : UInt64) (threadCount : UInt8) :
    Except String Slot := do
  let curCycle ← slot.getCycle periodsPerCycle
  let targetCycle ← if curCycle.toNat + 3 < 2 ^ 64 then pure (curCycle + 3)
    else throw "unexpected cycle overflow in try_sell_rolls"
  match Slot.newLastOfCycle targetCycle periodsPerCycle threadCount with
  | .ok targetSlot => pure targetSlot
  | .error e => throw ("unexpected slot overflow in try_sell_rolls: " ++ e.debug)

/-- `SpeculativeRollState::try_sell_rolls`: the outer `Except` is a panic, the
inner one the `Result` of the source.  The rolls are lowered (saturating) and
the credit at the reimbursement slot raised by `roll_price * roll_count`
(saturating), absolute value of the credit read through the layers. -/
def trySellRolls (self : SpeculativeRollState) (sellerAddr : Address) (slot : Slot)
    (rollCount periodsPerCycle : UInt64) (threadCount : UInt8) (rollPrice : Amount) :
    Except String (Except ExecutionError SpeculativeRollState) := do
  let ownedCount ← self.getRolls sellerAddr
  if ownedCount < rollCount then
    pure (.error (.rollSellNotEnough sellerAddr rollCount ownedCount))
  else
    let targetSlot ← sellCreditSlot slot periodsPerCycle threadCount
    let credit ← self.getAddressDeferredCreditForSlot sellerAddr targetSlot
    let newDeferredCredits := (credit.getD default).saturatingAdd (rollPrice.saturatingMulU64 rollCount)
    pure (.ok { self with addedChanges := { self.addedChanges with
      rollChanges := self.addedChanges.rollChanges.insert sellerAddr (saturatingSub ownedCount rollCount)
      deferredCredits :=
        self.addedChanges.deferredCredits.insert targetSlot sellerAddr newDeferredCredits } })

/-- The state with its added credits replaced. -/
def setAddedCredits (self : SpeculativeRollState) (deferredCredits : DeferredCredits) :
    SpeculativeRollState :=
  { self with addedChanges := { self.addedChanges with deferredCredits } }

/-- One credit of the loop of `try_slash_deferred_credits`: slash what is
left to slash, at most the credit, and write the lowered credit, absolute,
into the added changes. -/
def slashStep (addr : Address) (acc : Amount × DeferredCredits) (credit : Slot × Amount) :
    Amount × DeferredCredits :=
  let toSlash := credit.2.min acc.1
  (acc.1.saturatingSub toSlash, acc.2.insert credit.1 addr (credit.2.saturatingSub toSlash))

/-- `SpeculativeRollState::try_slash_deferred_credits`: the credits of `addr`
from `slot` on, in slot order, each slashed in turn; the amount slashed is
returned. -/
def trySlashDeferredCredits (self : SpeculativeRollState) (slot : Slot) (addr : Address)
    (amount : Amount) : Except String (Amount × SpeculativeRollState) := do
  let credits ← self.getAddressDeferredCredits addr (.included slot) .unbounded
  -- `(remaining_to_slash, added_changes.deferred_credits)` after the loop
  let slashed := credits.entries.foldl (slashStep addr) (amount, self.addedChanges.deferredCredits)
  pure (amount.saturatingSub slashed.1, self.setAddedCredits slashed.2)

/-- The credits the roll state stands for, given the credits `final` that the
final state holds: those of each history output, oldest first, and then the
added ones, each later entry replacing the earlier one. -/
def materialisedCredits (final : DeferredCredits) (self : SpeculativeRollState) :
    DeferredCredits :=
  (self.activeHistory.outputs.foldl
      (fun acc o => acc.extend o.stateChanges.posChanges.deferredCredits) final).extend
    self.addedChanges.deferredCredits

/-! ### The materialised credits -/

/-- The materialised credit of an address at a slot: the added one, else the
newest one of the history, else the final one. -/
theorem get_materialisedCredits (final : DeferredCredits) (self : SpeculativeRollState)
    (addr : Address) (s : Slot) :
    (self.materialisedCredits final).getAddressCreditsForSlot addr s =
      (self.addedChanges.deferredCredits.getAddressCreditsForSlot addr s).or
        ((self.activeHistory.outputs.reverse.findSome? fun o =>
            o.stateChanges.posChanges.deferredCredits.getAddressCreditsForSlot addr s).or
          (final.getAddressCreditsForSlot addr s)) := by
  rw [materialisedCredits, DeferredCredits.get_extend, DeferredCredits.get_foldl_extend]

/-! ### The layered read -/

/-- One layer of `get_address_deferred_credits`: a slot keeps what a newer
layer gave it, or takes the credit of this layer. -/
theorem get?_orInsertCredits (address : Address) (m : SortedMap Slot (SortedMap Address Amount))
    (res : SortedMap Slot Amount) (s : Slot) :
    (orInsertCredits address m.entries res).get? s =
      (res.get? s).or ((m.get? s).bind fun credits => credits.get? address) := by
  -- induction over the sorted entries, whose slots are distinct
  suffices ∀ (l : List (Slot × SortedMap Address Amount)) (res : SortedMap Slot Amount),
      KeysSorted l → (orInsertCredits address l res).get? s =
        (res.get? s).or ((lookup s l).bind fun credits => credits.get? address) by
    rw [this m.entries res m.sorted, SortedMap.get?_eq_lookup m]
  intro l
  induction l with
  | nil => intro res _; simp [orInsertCredits]
  | cons e l ih =>
    intro res hsorted
    obtain ⟨slot, credits⟩ := e
    obtain ⟨hhead, hrest⟩ := keysSorted_cons.mp hsorted
    rw [orInsertCredits, List.foldl_cons, ← orInsertCredits, ih _ hrest, lookup_cons]
    by_cases hs : slot = s
    · -- `slot` is the only entry of `s`
      subst hs
      have hnone : lookup slot l = none :=
        lookup_eq_none_of_forall fun e he => ne_of_gt (hhead e he)
      rw [if_pos rfl, hnone, Option.bind_none, Option.or_none, Option.bind_some]
      cases hcredit : credits.get? address with
      | none => simp
      | some amount =>
        dsimp only
        by_cases hres : res.contains slot = true
        · obtain ⟨x, hx⟩ := Option.isSome_iff_exists.mp hres
          rw [if_pos hres, hx]
          rfl
        · have hnone' : res.get? slot = none := by simpa [SortedMap.contains] using hres
          rw [if_neg hres, SortedMap.get?_insert, if_pos rfl, hnone']
          rfl
    · rw [if_neg hs]
      cases credits.get? address with
      | none => rfl
      | some amount =>
        dsimp only
        split_ifs
        · rfl
        · rw [SortedMap.get?_insert, if_neg (Ne.symm hs)]

/-- The history layers of `get_address_deferred_credits`, newest first, each
read in the range. -/
theorem get?_foldl_orInsertCredits (address : Address) (lo hi : Bound Slot)
    (outputs : List ExecutionOutput) (res : SortedMap Slot Amount) (s : Slot) :
    (outputs.foldl (fun res histItem => orInsertCredits address
        (histItem.stateChanges.posChanges.deferredCredits.credits.filter
          fun k _ => Bound.contains lo hi k).entries res) res).get? s =
      (res.get? s).or (if Bound.contains lo hi s = true then
        outputs.findSome? fun o =>
          o.stateChanges.posChanges.deferredCredits.getAddressCreditsForSlot address s
      else none) := by
  induction outputs generalizing res with
  | nil => split_ifs <;> simp
  | cons o outputs ih =>
    rw [List.foldl_cons, ih, get?_orInsertCredits, SortedMap.get?_filter, Option.or_assoc,
      List.findSome?_cons]
    by_cases hs : Bound.contains lo hi s = true
    · -- the credit of `o`, if any, wins over the older outputs
      simp only [hs, if_true, Option.filter_const_true]
      unfold DeferredCredits.getAddressCreditsForSlot
      cases (o.stateChanges.posChanges.deferredCredits.credits.get? s).bind
        fun credits => credits.get? address <;> rfl
    · simp [hs]

/-- What `get_address_deferred_credits` computes over a range that
`BTreeMap::range` accepts, once the final scan succeeds. -/
theorem getAddressDeferredCredits_eq_ok (self : SpeculativeRollState) (address : Address)
    {lo hi : Bound Slot} (hrange : Bound.rangeValid lo hi = true) {dc : DeferredCredits}
    (hdc : PoSFinalState.getDeferredCreditsRange self.finalState.stateCf
      self.finalState.threadCount lo hi (some address) = .ok dc) :
    self.getAddressDeferredCredits address lo hi = .ok
      ((orInsertCredits address dc.credits.entries
        (self.activeHistory.outputs.reverse.foldl (fun res histItem => orInsertCredits address
            (histItem.stateChanges.posChanges.deferredCredits.credits.filter
              fun k _ => Bound.contains lo hi k).entries res)
          (orInsertCredits address (self.addedChanges.deferredCredits.credits.filter
            fun k _ => Bound.contains lo hi k).entries ∅))).filter fun _ v => !v.isZero) := by
  -- the range of every layer succeeds
  have hhist : ∀ res : SortedMap Slot Amount,
      self.activeHistory.outputs.reverse.foldlM (fun res histItem => do
        let credits ← histItem.stateChanges.posChanges.deferredCredits.credits.range lo hi
        pure (orInsertCredits address credits.entries res)) res =
      .ok (self.activeHistory.outputs.reverse.foldl (fun res histItem => orInsertCredits address
        (histItem.stateChanges.posChanges.deferredCredits.credits.filter
          fun k _ => Bound.contains lo hi k).entries res) res) :=
    List.foldlM_eq_ok_of_forall fun res histItem _ => by
      rw [SortedMap.range_of_rangeValid _ hrange]
      rfl
  rw [getAddressDeferredCredits, SortedMap.range_of_rangeValid _ hrange, Except.ok_bind]
  dsimp only
  rw [hhist, Except.ok_bind, hdc, Except.ok_bind]
  rfl

/-- **The layered read.**  Over a range that `BTreeMap::range` accepts and
whose excluded start has a next slot, `get_address_deferred_credits` returns
the non-zero materialised credits of the address in the range. -/
theorem getAddressDeferredCredits_eq {self : SpeculativeRollState} {final : DeferredCredits}
    (hfinal : self.finalState.Holds final) (address : Address) {lo hi : Bound Slot}
    (hrange : Bound.rangeValid lo hi = true)
    (hlo : ∀ s, lo = .excluded s → s.thread.toNat < self.finalState.threadCount.toNat ∧
      ¬(s.period.toNat = 2 ^ 64 - 1 ∧ s.thread.toNat + 1 = self.finalState.threadCount.toNat)) :
    ∃ res, self.getAddressDeferredCredits address lo hi = .ok res ∧
      ∀ s, res.get? s = if Bound.contains lo hi s = true then
        ((self.materialisedCredits final).getAddressCreditsForSlot address s).filter
          fun a => !a.isZero
      else none := by
  obtain ⟨dc, hdc, hget⟩ :=
    PoSFinalState.getDeferredCreditsRange_eq hfinal.1 hlo hi (some address)
  refine ⟨_, getAddressDeferredCredits_eq_ok self address hrange hdc, fun s => ?_⟩
  -- the final layer reads the stored credit of the slot when the range holds it
  have hfin : (dc.credits.get? s).bind (fun credits => credits.get? address) =
      if Bound.contains lo hi s = true then final.getAddressCreditsForSlot address s
      else none := by
    rw [show (dc.credits.get? s).bind (fun credits => credits.get? address) =
        dc.getAddressCreditsForSlot address s from rfl, hget, ← hfinal.2]
    simp
  rw [SortedMap.get?_filter, get?_orInsertCredits, get?_foldl_orInsertCredits,
    get?_orInsertCredits, SortedMap.get?_filter, SortedMap.get?_empty, hfin,
    get_materialisedCredits]
  by_cases hs : Bound.contains lo hi s = true
  · simp only [hs, if_true, Option.filter_const_true, Option.none_or, Option.or_assoc]
    rfl
  · simp [hs]

/-! ### Taking the credits up to a slot -/

/-- What `take_unexecuted_deferred_credits` computes, once the final scan
and the history succeed. -/
theorem takeUnexecutedDeferredCredits_eq_ok (self : SpeculativeRollState) (slot : Slot)
    {final history : DeferredCredits}
    (hfinal : PoSFinalState.getDeferredCreditsRange self.finalState.stateCf
      self.finalState.threadCount .unbounded (.included slot) none = .ok final)
    (hhistory : self.activeHistory.getAllDeferredCreditsUntil slot = .ok history) :
    let taken := ((final.extend history).extend ⟨self.addedChanges.deferredCredits.credits.filter
      fun k _ => Bound.contains .unbounded (.included slot) k⟩).removeZeros
    self.takeUnexecutedDeferredCredits slot = .ok (taken,
      { self with addedChanges := { self.addedChanges with
          deferredCredits := taken.credits.entries.foldl
            (fun acc e => e.2.entries.foldl (fun acc c => acc.insert e.1 c.1 ⟨0⟩) acc)
            self.addedChanges.deferredCredits } }) := by
  intro taken
  rw [takeUnexecutedDeferredCredits, hfinal, Except.ok_bind, hhistory, Except.ok_bind,
    DeferredCredits.getSlotRange_of_rangeValid _ rfl, Except.ok_bind]
  rfl

/-- **Taking the credits up to a slot.**  `take_unexecuted_deferred_credits`
returns the non-zero materialised credits up to the slot, and afterwards the
materialised credits are the former ones with each taken credit set to zero. -/
theorem takeUnexecutedDeferredCredits_eq {self : SpeculativeRollState} {final : DeferredCredits}
    (hfinal : self.finalState.Holds final) (slot : Slot) :
    ∃ taken next, self.takeUnexecutedDeferredCredits slot = .ok (taken, next) ∧
      (∀ addr s, taken.getAddressCreditsForSlot addr s =
        if s ≤ slot then
          ((self.materialisedCredits final).getAddressCreditsForSlot addr s).filter
            fun a => !a.isZero
        else none) ∧
      ∀ addr s, (next.materialisedCredits final).getAddressCreditsForSlot addr s =
        ((taken.getAddressCreditsForSlot addr s).map fun _ => ⟨0⟩).or
          ((self.materialisedCredits final).getAddressCreditsForSlot addr s) := by
  obtain ⟨dcFinal, hdc, hgetFinal⟩ := PoSFinalState.getDeferredCreditsRange_eq hfinal.1
    (fun s (hs : (Bound.unbounded : Bound Slot) = .excluded s) => by cases hs) (.included slot) none
  obtain ⟨history, hhistory, hgetHistory⟩ := self.activeHistory.getAllDeferredCreditsUntil_eq slot
  have hadded := self.addedChanges.deferredCredits.getSlotRange_of_rangeValid
    (show Bound.rangeValid (.unbounded : Bound Slot) (.included slot) = true from rfl)
  refine ⟨_, _, takeUnexecutedDeferredCredits_eq_ok self slot hdc hhistory, ?_, ?_⟩
  · -- each layer reads its credit up to the slot, the newest winning
    intro addr s
    rw [DeferredCredits.get_removeZeros, DeferredCredits.get_extend, DeferredCredits.get_extend,
      DeferredCredits.get_getSlotRange hadded, hgetHistory, hgetFinal, get_materialisedCredits,
      ← hfinal.2]
    by_cases hs : s ≤ slot
    · simp [Bound.contains, Bound.startContains, Bound.endContains, hs,
        ActiveHistory.getAdressDeferredCreditFor]
    · simp [Bound.contains, Bound.startContains, Bound.endContains, hs]
  · -- the zeroes written into the added changes win over every layer
    intro addr s
    have hzero := DeferredCredits.get_foldl_insert_map self.addedChanges.deferredCredits
      (((dcFinal.extend history).extend ⟨self.addedChanges.deferredCredits.credits.filter
        fun k _ => Bound.contains .unbounded (.included slot) k⟩).removeZeros)
      (fun _ => ⟨0⟩) addr s
    rw [get_materialisedCredits, get_materialisedCredits]
    dsimp only
    rw [hzero, Option.or_assoc]

/-! ### Rolls, and the credit of a sale -/

/-- The reimbursement slot is the last slot of the cycle three cycles after
that of `slot`: the last period of that cycle, at the last thread. -/
theorem sellCreditSlot_eq_ok {slot targetSlot : Slot} {periodsPerCycle : UInt64}
    {threadCount : UInt8} (h : sellCreditSlot slot periodsPerCycle threadCount = .ok targetSlot) :
    targetSlot.period.toNat =
        (slot.period.toNat / periodsPerCycle.toNat + 3) * periodsPerCycle.toNat +
          (periodsPerCycle.toNat - 1) ∧
      targetSlot.thread.toNat = threadCount.toNat - 1 := by
  unfold sellCreditSlot Slot.getCycle at h
  by_cases hzero : periodsPerCycle = 0
  · rw [if_pos hzero] at h
    cases h
  rw [if_neg hzero, Except.ok_bind] at h
  by_cases hfit : (slot.period / periodsPerCycle).toNat + 3 < 2 ^ 64
  swap
  · rw [if_neg hfit] at h
    cases h
  rw [if_pos hfit, pure_bind] at h
  dsimp only at h
  cases hlast : Slot.newLastOfCycle (slot.period / periodsPerCycle + 3) periodsPerCycle threadCount with
  | error e =>
    rw [hlast] at h
    cases h
  | ok s =>
    rw [hlast] at h
    cases h
    simp only [Slot.newLastOfCycle, if_neg hzero] at hlast
    by_cases hmul : (slot.period / periodsPerCycle + 3).toNat * periodsPerCycle.toNat < 2 ^ 64
    swap
    · rw [if_neg hmul] at hlast
      cases hlast
    by_cases hadd : ((slot.period / periodsPerCycle + 3) * periodsPerCycle).toNat +
        (periodsPerCycle - 1).toNat < 2 ^ 64
    swap
    · rw [if_pos hmul, if_neg hadd] at hlast
      cases hlast
    rw [if_pos hmul, if_pos hadd] at hlast
    cases hlast
    -- each step of the period fits, so the `u64` arithmetic is exact
    have hcycle : (slot.period / periodsPerCycle + 3).toNat =
        slot.period.toNat / periodsPerCycle.toNat + 3 := by
      rw [UInt64.toNat_add, UInt64.toNat_div, Nat.mod_eq_of_lt (by rw [← UInt64.toNat_div]; exact hfit)]
      rfl
    have hone : (1 : UInt64) ≤ periodsPerCycle := by
      rw [UInt64.le_iff_toNat_le]
      have : periodsPerCycle.toNat ≠ 0 := fun h0 => hzero (UInt64.toNat_inj.mp h0)
      show 1 ≤ periodsPerCycle.toNat
      omega
    refine ⟨?_, ?_⟩
    · show (_ + _ : UInt64).toNat = _
      rw [UInt64.toNat_add, Nat.mod_eq_of_lt hadd, UInt64.toNat_mul, Nat.mod_eq_of_lt hmul, hcycle,
        UInt64.toNat_sub_of_le _ _ hone]
      rfl
    · show (if threadCount = 0 then 0 else threadCount - 1 : UInt8).toNat = _
      split
      · rename_i ht
        rw [ht]
        rfl
      · rename_i ht
        have hone' : (1 : UInt8) ≤ threadCount := by
          rw [UInt8.le_iff_toNat_le]
          have : threadCount.toNat ≠ 0 := fun h0 => ht (UInt8.toNat_inj.mp h0)
          show 1 ≤ threadCount.toNat
          omega
        rw [UInt8.toNat_sub_of_le _ _ hone']
        rfl

/-- A roll count written into the added changes is what `get_rolls` reads
for that address; the other addresses read as before. -/
theorem getRolls_insert (self : SpeculativeRollState) (deferredCredits : DeferredCredits)
    (addr a : Address) (count : UInt64) :
    ({ self with addedChanges := { self.addedChanges with
        rollChanges := self.addedChanges.rollChanges.insert addr count, deferredCredits } } :
        SpeculativeRollState).getRolls a =
      if a = addr then .ok count else self.getRolls a := by
  unfold getRolls
  rw [SortedMap.get?_insert]
  split_ifs <;> rfl

/-- `get_address_deferred_credit_for_slot` reads the materialised credit. -/
theorem getAddressDeferredCreditForSlot_eq {self : SpeculativeRollState} {final : DeferredCredits}
    (hfinal : self.finalState.Holds final) (addr : Address) (slot : Slot) :
    self.getAddressDeferredCreditForSlot addr slot =
      .ok ((self.materialisedCredits final).getAddressCreditsForSlot addr slot) := by
  rw [get_materialisedCredits, getAddressDeferredCreditForSlot]
  cases self.addedChanges.deferredCredits.getAddressCreditsForSlot addr slot with
  | some credit => rfl
  | none =>
    dsimp only
    rw [ActiveHistory.getAdressDeferredCreditFor]
    cases self.activeHistory.outputs.reverse.findSome? (fun o =>
        o.stateChanges.posChanges.deferredCredits.getAddressCreditsForSlot addr slot) with
    | some credit => rfl
    | none =>
      -- the final layer: the stored credit is the one `final` holds
      rw [PoSFinalState.getAddressCreditsForSlot_eq hfinal.1, hfinal.2]
      rfl

/-- A credit written into the added changes is the materialised credit of
its address and slot; the other credits stay as they were. -/
theorem get_materialisedCredits_insert (final : DeferredCredits) (self : SpeculativeRollState)
    (rollChanges : SortedMap Address UInt64) (slot : Slot) (address addr : Address)
    (amount : Amount) (s : Slot) :
    (({ self with addedChanges := { self.addedChanges with
          rollChanges := rollChanges
          deferredCredits := self.addedChanges.deferredCredits.insert slot address amount } } :
        SpeculativeRollState).materialisedCredits final).getAddressCreditsForSlot addr s =
      if s = slot ∧ addr = address then some amount
      else (self.materialisedCredits final).getAddressCreditsForSlot addr s := by
  rw [get_materialisedCredits, get_materialisedCredits]
  dsimp only
  rw [DeferredCredits.get_insert]
  split_ifs <;> rfl

/-- A successful `add_rolls` raises the rolls of the buyer, saturating, and
leaves the credits as they were. -/
theorem addRolls_spec {self next : SpeculativeRollState} {buyerAddr : Address}
    {rollCount : UInt64} (h : self.addRolls buyerAddr rollCount = .ok next) :
    ∃ count, self.getRolls buyerAddr = .ok count ∧
      next.getRolls buyerAddr = .ok (saturatingAdd count rollCount) ∧
      ∀ final, next.materialisedCredits final = self.materialisedCredits final := by
  unfold addRolls at h
  cases hget : self.getRolls buyerAddr with
  | error e =>
    rw [hget] at h
    cases h
  | ok count =>
    rw [hget] at h
    cases h
    refine ⟨count, rfl, ?_, fun _ => rfl⟩
    rw [getRolls_insert, if_pos rfl]

/-- A successful `try_sell_rolls`: the seller owns at least the rolls sold,
the reimbursement slot and the credit there read without panicking, and the
added changes receive the lowered roll count and the raised credit. -/
theorem trySellRolls_spec {self next : SpeculativeRollState} {sellerAddr : Address}
    {slot : Slot} {rollCount periodsPerCycle : UInt64} {threadCount : UInt8}
    {rollPrice : Amount}
    (h : self.trySellRolls sellerAddr slot rollCount periodsPerCycle threadCount rollPrice =
      .ok (.ok next)) :
    ∃ owned targetSlot credit, self.getRolls sellerAddr = .ok owned ∧ rollCount ≤ owned ∧
      sellCreditSlot slot periodsPerCycle threadCount = .ok targetSlot ∧
      self.getAddressDeferredCreditForSlot sellerAddr targetSlot = .ok credit ∧
      next = { self with addedChanges := { self.addedChanges with
        rollChanges :=
          self.addedChanges.rollChanges.insert sellerAddr (saturatingSub owned rollCount),
        deferredCredits := self.addedChanges.deferredCredits.insert targetSlot sellerAddr
          ((credit.getD default).saturatingAdd (rollPrice.saturatingMulU64 rollCount)) } } := by
  unfold trySellRolls at h
  cases hget : self.getRolls sellerAddr with
  | error e =>
    rw [hget] at h
    cases h
  | ok owned =>
    rw [hget, Except.ok_bind] at h
    by_cases hlt : owned < rollCount
    · rw [if_pos hlt] at h
      cases h
    rw [if_neg hlt] at h
    cases htarget : sellCreditSlot slot periodsPerCycle threadCount with
    | error e =>
      rw [htarget] at h
      cases h
    | ok targetSlot =>
      rw [htarget, Except.ok_bind] at h
      cases hcredit : self.getAddressDeferredCreditForSlot sellerAddr targetSlot with
      | error e =>
        rw [hcredit] at h
        cases h
      | ok credit =>
        rw [hcredit, Except.ok_bind] at h
        cases h
        exact ⟨owned, targetSlot, credit, rfl, UInt64.not_lt.mp hlt, rfl, hcredit, rfl⟩

/-! ### The layers are read and consumed consistently -/

/-- Over the credits that the final state holds, for a range that
`BTreeMap::range` accepts and whose excluded start has a next slot: the
layered read returns the non-zero materialised credits in the range, taking
the credits up to a slot returns the non-zero materialised credits up to it,
and afterwards the materialised credits are the former ones with each taken
credit set to zero, so no credit up to that slot is left to pay. -/
theorem deferredCredits_read_and_taken_once {self : SpeculativeRollState}
    {final : DeferredCredits} (hfinal : self.finalState.Holds final) (address : Address)
    {lo hi : Bound Slot} (hrange : Bound.rangeValid lo hi = true)
    (hlo : ∀ s, lo = .excluded s → s.thread.toNat < self.finalState.threadCount.toNat ∧
      ¬(s.period.toNat = 2 ^ 64 - 1 ∧ s.thread.toNat + 1 = self.finalState.threadCount.toNat))
    (slot : Slot) :
    let D := self.materialisedCredits final
    (∃ res, self.getAddressDeferredCredits address lo hi = .ok res ∧
      ∀ s, res.get? s = if Bound.contains lo hi s = true then
        (D.getAddressCreditsForSlot address s).filter fun a => !a.isZero
      else none) ∧
    ∃ taken next, self.takeUnexecutedDeferredCredits slot = .ok (taken, next) ∧
      (∀ addr s, taken.getAddressCreditsForSlot addr s =
        if s ≤ slot then (D.getAddressCreditsForSlot addr s).filter fun a => !a.isZero
        else none) ∧
      (∀ addr s, (next.materialisedCredits final).getAddressCreditsForSlot addr s =
        ((taken.getAddressCreditsForSlot addr s).map fun _ => ⟨0⟩).or
          (D.getAddressCreditsForSlot addr s)) ∧
      ∀ addr s, s ≤ slot →
        ((next.materialisedCredits final).getAddressCreditsForSlot addr s).filter
          (fun a => !a.isZero) = none := by
  intro D
  refine ⟨getAddressDeferredCredits_eq hfinal address hrange hlo, ?_⟩
  obtain ⟨taken, next, htake, hread, hnext⟩ := takeUnexecutedDeferredCredits_eq hfinal slot
  refine ⟨taken, next, htake, hread, hnext, fun addr s hs => ?_⟩
  rw [hnext, hread, if_pos hs]
  -- a taken credit is now zero, and any other credit up to the slot was zero or absent
  cases hD : (D.getAddressCreditsForSlot addr s).filter fun a => !a.isZero with
  | none => rw [Option.map_none, Option.none_or, hD]
  | some a => rfl

/-- A credit added at slot `(5, 3)`, read from `(5, 0)` on and taken up to
`(6, 0)`. -/
theorem deferredCredits_read_and_taken_once_added_credit :
    let self : SpeculativeRollState :=
      ⟨⟨∅, 32, []⟩, ⟨[]⟩, { deferredCredits := DeferredCredits.new.insert ⟨5, 3⟩ zeroAddress ⟨7⟩ }⟩
    let D := self.materialisedCredits .new
    (∃ res, self.getAddressDeferredCredits zeroAddress (.included ⟨5, 0⟩) .unbounded = .ok res ∧
      ∀ s, res.get? s = if Bound.contains (.included (⟨5, 0⟩ : Slot)) .unbounded s = true then
        (D.getAddressCreditsForSlot zeroAddress s).filter fun a => !a.isZero
      else none) ∧
    ∃ taken next, self.takeUnexecutedDeferredCredits ⟨6, 0⟩ = .ok (taken, next) ∧
      (∀ addr s, taken.getAddressCreditsForSlot addr s =
        if s ≤ ⟨6, 0⟩ then (D.getAddressCreditsForSlot addr s).filter fun a => !a.isZero
        else none) ∧
      (∀ addr s, (next.materialisedCredits .new).getAddressCreditsForSlot addr s =
        ((taken.getAddressCreditsForSlot addr s).map fun _ => ⟨0⟩).or
          (D.getAddressCreditsForSlot addr s)) ∧
      ∀ addr s, s ≤ ⟨6, 0⟩ →
        ((next.materialisedCredits .new).getAddressCreditsForSlot addr s).filter
          (fun a => !a.isZero) = none := by
  intro self D
  exact deferredCredits_read_and_taken_once
    ⟨PoSFinalState.deferredCreditsStored_empty 32, fun _ _ => rfl⟩ zeroAddress rfl
    (fun s hs => by cases hs) ⟨6, 0⟩

/-- A range whose start is above its end holds no slot, but with an added
credit `BTreeMap::range` panics on it. -/
theorem getAddressDeferredCredits_inverted_range_panics :
    let self : SpeculativeRollState :=
      ⟨⟨∅, 32, []⟩, ⟨[]⟩, { deferredCredits := DeferredCredits.new.insert ⟨5, 3⟩ zeroAddress ⟨7⟩ }⟩
    (∀ s, Bound.contains (.included (⟨5, 2⟩ : Slot)) (.included ⟨5, 1⟩) s = false) ∧
      self.getAddressDeferredCredits zeroAddress (.included ⟨5, 2⟩) (.included ⟨5, 1⟩) =
        .error "range start is greater than range end in BTreeMap" := by
  intro self
  refine ⟨fun s => ?_, rfl⟩
  have hlt : (⟨5, 1⟩ : Slot) < ⟨5, 2⟩ := by decide
  cases h : Bound.contains (.included (⟨5, 2⟩ : Slot)) (.included ⟨5, 1⟩) s with
  | false => rfl
  | true =>
    simp only [Bound.contains, Bound.startContains, Bound.endContains, Bool.and_eq_true,
      decide_eq_true_eq] at h
    exact absurd (le_trans h.1 h.2) (not_le.mpr hlt)

/-! ### Slashing the credits -/

/-- A view of the added credits in which an insert changes exactly the
credit it writes. -/
def ReadsInserts (view : DeferredCredits → DeferredCredits) : Prop :=
  ∀ dc slot address amount a s,
    (view (dc.insert slot address amount)).getAddressCreditsForSlot a s =
      if s = slot ∧ a = address then some amount else (view dc).getAddressCreditsForSlot a s

/-- The materialised credits read the inserts into the added credits. -/
theorem readsInserts_materialisedCredits (final : DeferredCredits) (self : SpeculativeRollState) :
    ReadsInserts fun dc => (self.setAddedCredits dc).materialisedCredits final := by
  intro dc slot address amount a s
  rw [get_materialisedCredits, get_materialisedCredits]
  dsimp only [setAddedCredits]
  rw [DeferredCredits.get_insert]
  split_ifs <;> rfl

/-- One credit slashed: what is left to slash drops by the credit, and the
credit by what was left to slash. -/
theorem slashStep_spec (addr : Address) (rem : Amount) (dc : DeferredCredits)
    (credit : Slot × Amount) :
    ∃ rem' c, slashStep addr (rem, dc) credit = (rem', dc.insert credit.1 addr c) ∧
      rem'.raw.toNat = rem.raw.toNat - credit.2.raw.toNat ∧
      c.raw.toNat = credit.2.raw.toNat - rem.raw.toNat := by
  refine ⟨_, _, rfl, ?_, ?_⟩
  · dsimp only
    rw [Amount.toNat_saturatingSub, Amount.toNat_min]
    omega
  · dsimp only
    rw [Amount.toNat_saturatingSub, Amount.toNat_min]
    omega

/-- Dropping the zero credits leaves what is owed unchanged. -/
private theorem owed_filter_isZero (credit : Option Amount) :
    ((credit.filter fun a => !a.isZero).map fun a => a.raw.toNat).getD 0 =
      (credit.map fun a => a.raw.toNat).getD 0 := by
  cases credit with
  | none => rfl
  | some a =>
    by_cases ha : a.raw = 0
    · simp [Option.filter_some, Amount.isZero, ha]
    · simp [Option.filter_some, Amount.isZero, ha]

/-- A credit that is zero is no credit left to pay. -/
private theorem filter_isZero_of_toNat_eq_zero {c : Amount} (h : c.raw.toNat = 0) :
    (some c).filter (fun a => !a.isZero) = none := by
  have hc : c.raw = 0 := UInt64.toNat_inj.mp h
  simp [Amount.isZero, hc]

section Slashing

variable {view : DeferredCredits → DeferredCredits} (addr : Address)

/-- **What is left to slash** after the loop: the amount less every credit. -/
theorem toNat_foldl_slashStep_fst (credits : List (Slot × Amount)) (rem : Amount)
    (dc : DeferredCredits) :
    (credits.foldl (slashStep addr) (rem, dc)).1.raw.toNat =
      rem.raw.toNat - (credits.map fun e => e.2.raw.toNat).sum := by
  induction credits generalizing rem dc with
  | nil => simp
  | cons e credits ih =>
    obtain ⟨rem', c, hstep, hrem', -⟩ := slashStep_spec addr rem dc e
    rw [List.foldl_cons, hstep, ih, hrem', List.map_cons, List.sum_cons]
    omega

/-- The loop touches only the credits of `addr` at the slots it visits. -/
theorem get_foldl_slashStep_of_not_mem (hview : ReadsInserts view)
    (credits : List (Slot × Amount)) (rem : Amount) (dc : DeferredCredits) {a : Address} {s : Slot}
    (hs : ¬(a = addr ∧ s ∈ credits.map Prod.fst)) :
    (view (credits.foldl (slashStep addr) (rem, dc)).2).getAddressCreditsForSlot a s =
      (view dc).getAddressCreditsForSlot a s := by
  induction credits generalizing rem dc with
  | nil => rfl
  | cons e credits ih =>
    obtain ⟨rem', c, hstep, -, -⟩ := slashStep_spec addr rem dc e
    rw [List.foldl_cons, hstep, ih _ _ fun h => hs ⟨h.1, List.mem_cons_of_mem _ h.2⟩, hview,
      if_neg fun (h : s = e.1 ∧ a = addr) =>
        hs ⟨h.2, List.mem_map.mpr ⟨e, List.mem_cons_self, h.1.symm⟩⟩]

/-- The credits of the visited slots, as the view reads them before the
loop. -/
def CreditsRead (view : DeferredCredits → DeferredCredits) (dc : DeferredCredits)
    (credits : List (Slot × Amount)) : Prop :=
  ∀ e ∈ credits, (view dc).getAddressCreditsForSlot addr e.1 = some e.2

/-- After the first credit, the others still read as before. -/
theorem CreditsRead.tail (hview : ReadsInserts view) {dc : DeferredCredits} {e : Slot × Amount}
    {credits : List (Slot × Amount)} (hread : CreditsRead addr view dc (e :: credits))
    (hsorted : KeysSorted (e :: credits)) (c : Amount) :
    CreditsRead addr view (dc.insert e.1 addr c) credits := by
  intro e' he'
  have hne : e'.1 ≠ e.1 := ne_of_gt ((keysSorted_cons.mp hsorted).1 e' he')
  rw [hview, if_neg fun h => hne h.1]
  exact hread e' (List.mem_cons_of_mem _ he')

/-- With nothing to slash, the loop writes every credit back unchanged. -/
theorem get_foldl_slashStep_of_zero (hview : ReadsInserts view)
    (credits : List (Slot × Amount)) (rem : Amount) (dc : DeferredCredits)
    (hread : CreditsRead addr view dc credits) (hrem : rem.raw.toNat = 0) (a : Address) (s : Slot) :
    (view (credits.foldl (slashStep addr) (rem, dc)).2).getAddressCreditsForSlot a s =
      (view dc).getAddressCreditsForSlot a s := by
  induction credits generalizing rem dc with
  | nil => rfl
  | cons e credits ih =>
    obtain ⟨rem', c, hstep, hrem', hc⟩ := slashStep_spec addr rem dc e
    -- the credit written back is the credit read
    have hce : c = e.2 := by
      obtain ⟨craw⟩ := c
      obtain ⟨t, ⟨vraw⟩⟩ := e
      dsimp only at hc ⊢
      rw [UInt64.toNat_inj.mp (show craw.toNat = vraw.toNat by omega)]
    have hsame : ∀ a s, (view (dc.insert e.1 addr c)).getAddressCreditsForSlot a s =
        (view dc).getAddressCreditsForSlot a s := by
      intro a s
      rw [hview]
      split_ifs with h
      · rw [h.1, h.2, hce, hread e List.mem_cons_self]
      · rfl
    rw [List.foldl_cons, hstep, ih _ _ (fun e' he' => (hsame _ _).trans (hread e'
      (List.mem_cons_of_mem _ he'))) (by omega), hsame]

/-- **The total after the loop.**  Over slots from `slot` on that hold the
visited credits, the total owed to `addr` drops by exactly what was
slashed. -/
theorem addressTotal_foldl_slashStep (hview : ReadsInserts view) (slot : Slot)
    (credits : List (Slot × Amount)) (rem : Amount) (dc : DeferredCredits)
    (hread : CreditsRead addr view dc credits) (hsorted : KeysSorted credits)
    (hslot : ∀ e ∈ credits, slot ≤ e.1) :
    ((view (credits.foldl (slashStep addr) (rem, dc)).2).fromSlot slot).addressTotal addr +
        (rem.raw.toNat - (credits.foldl (slashStep addr) (rem, dc)).1.raw.toNat) =
      ((view dc).fromSlot slot).addressTotal addr := by
  induction credits generalizing rem dc with
  | nil => simp
  | cons e credits ih =>
    obtain ⟨rem', c, hstep, hrem', hc⟩ := slashStep_spec addr rem dc e
    -- the first credit `e.2` becomes `c`; the total drops by the difference
    have hother : ∀ s, s ≠ e.1 →
        ((view (dc.insert e.1 addr c)).fromSlot slot).getAddressCreditsForSlot addr s =
          ((view dc).fromSlot slot).getAddressCreditsForSlot addr s := by
      intro s hs
      rw [DeferredCredits.get_fromSlot, DeferredCredits.get_fromSlot, hview,
        if_neg fun (h : s = e.1 ∧ addr = addr) => hs h.1]
    have hat : ((view (dc.insert e.1 addr c)).fromSlot slot).getAddressCreditsForSlot addr e.1 =
        some c := by
      rw [DeferredCredits.get_fromSlot, if_pos (hslot e List.mem_cons_self), hview,
        if_pos ⟨rfl, rfl⟩]
    have hstepTotal := DeferredCredits.addressTotal_update hother hat
    rw [DeferredCredits.get_fromSlot, if_pos (hslot e List.mem_cons_self),
      hread e List.mem_cons_self] at hstepTotal
    simp only [Option.map_some, Option.getD_some] at hstepTotal
    have hrest := ih rem' (dc.insert e.1 addr c) (hread.tail addr hview hsorted c)
      (keysSorted_cons.mp hsorted).2 fun e' he' => hslot e' (List.mem_cons_of_mem _ he')
    have hle := toNat_foldl_slashStep_fst addr credits rem' (dc.insert e.1 addr c)
    rw [List.foldl_cons, hstep]
    omega

/-- **The order of the loop.**  When a visited credit of `addr` changed, every
credit visited before it was slashed to zero. -/
theorem filter_get_foldl_slashStep_of_lt (hview : ReadsInserts view)
    (credits : List (Slot × Amount)) (rem : Amount) (dc : DeferredCredits)
    (hread : CreditsRead addr view dc credits) (hsorted : KeysSorted credits) {t₁ t₂ : Slot}
    (h₁ : t₁ ∈ credits.map Prod.fst) (hlt : t₁ < t₂)
    (hchanged : (view (credits.foldl (slashStep addr) (rem, dc)).2).getAddressCreditsForSlot addr t₂ ≠
      (view dc).getAddressCreditsForSlot addr t₂) :
    ((view (credits.foldl (slashStep addr) (rem, dc)).2).getAddressCreditsForSlot addr t₁).filter
      (fun a => !a.isZero) = none := by
  induction credits generalizing rem dc with
  | nil => cases h₁
  | cons e credits ih =>
    obtain ⟨rem', c, hstep, hrem', hc⟩ := slashStep_spec addr rem dc e
    obtain ⟨hhead, hrest⟩ := keysSorted_cons.mp hsorted
    rw [List.foldl_cons, hstep] at hchanged ⊢
    -- the first credit lies below `t₂`, so the first step left `t₂` as it was
    have hhead₁ : e.1 ≤ t₁ := by
      rcases List.mem_cons.mp h₁ with h | h
      · exact h.ge
      · obtain ⟨e', he', rfl⟩ := List.mem_map.mp h
        exact (hhead e' he').le
    have hsame : (view (dc.insert e.1 addr c)).getAddressCreditsForSlot addr t₂ =
        (view dc).getAddressCreditsForSlot addr t₂ := by
      rw [hview, if_neg fun (h : t₂ = e.1 ∧ addr = addr) =>
        absurd (h.1 ▸ hlt) (not_lt.mpr hhead₁)]
    rw [← hsame] at hchanged
    rcases List.mem_cons.mp h₁ with rfl | h₁'
    · -- a later credit changed, so something was left after the first: it was emptied
      have hpos : rem'.raw.toNat ≠ 0 := fun h0 => hchanged (get_foldl_slashStep_of_zero addr hview
        credits rem' _ (hread.tail addr hview hsorted c) h0 addr t₂)
      have hnot : ¬(addr = addr ∧ e.1 ∈ credits.map Prod.fst) := fun h => by
        obtain ⟨e', he', hkey⟩ := List.mem_map.mp h.2
        exact absurd (hkey ▸ hhead e' he') (lt_irrefl _)
      rw [get_foldl_slashStep_of_not_mem addr hview credits rem' _ hnot, hview,
        if_pos ⟨rfl, rfl⟩]
      exact filter_isZero_of_toNat_eq_zero (by omega)
    · exact ih rem' _ (hread.tail addr hview hsorted c) hrest h₁' hchanged

end Slashing

/-- **Slashing the deferred credits.**  Over the credits that the final state
holds, `try_slash_deferred_credits` slashes `min(amount, T)`, where `T` is the
total of the materialised credits of `addr` from `slot` on; afterwards that
total is `T` less what was slashed, no other credit changed, and a credit
changed only once every earlier credit from `slot` on was emptied. -/
theorem trySlashDeferredCredits_slashes_in_order {self : SpeculativeRollState}
    {final : DeferredCredits} (hfinal : self.finalState.Holds final) (slot : Slot)
    (addr : Address) (amount : Amount) :
    ∃ slashed next, self.trySlashDeferredCredits slot addr amount = .ok (slashed, next) ∧
      slashed.raw.toNat =
        min amount.raw.toNat (((self.materialisedCredits final).fromSlot slot).addressTotal addr) ∧
      ((next.materialisedCredits final).fromSlot slot).addressTotal addr =
        ((self.materialisedCredits final).fromSlot slot).addressTotal addr - slashed.raw.toNat ∧
      (∀ a s, ¬(a = addr ∧ slot ≤ s) →
        (next.materialisedCredits final).getAddressCreditsForSlot a s =
          (self.materialisedCredits final).getAddressCreditsForSlot a s) ∧
      ∀ s₁ s₂, slot ≤ s₁ → s₁ < s₂ →
        (next.materialisedCredits final).getAddressCreditsForSlot addr s₂ ≠
          (self.materialisedCredits final).getAddressCreditsForSlot addr s₂ →
        ((next.materialisedCredits final).getAddressCreditsForSlot addr s₁).filter
          (fun a => !a.isZero) = none := by
  obtain ⟨res, hres, hget⟩ := getAddressDeferredCredits_eq hfinal addr
    (show Bound.rangeValid (.included slot) (.unbounded : Bound Slot) = true from rfl)
    (fun s hs => by cases hs)
  have hcontains : ∀ s, Bound.contains (.included slot) (.unbounded : Bound Slot) s =
      decide (slot ≤ s) := fun s => by
    simp [Bound.contains, Bound.startContains, Bound.endContains]
  have hview := readsInserts_materialisedCredits final self
  have hself : self.setAddedCredits self.addedChanges.deferredCredits = self := rfl
  -- the credits read are the non-zero materialised ones from `slot` on
  have hentry : ∀ e ∈ res.entries, slot ≤ e.1 ∧
      (self.materialisedCredits final).getAddressCreditsForSlot addr e.1 = some e.2 := by
    intro e he
    have h := hget e.1
    rw [(SortedMap.mem_entries_iff _ _ _).mp he, hcontains] at h
    by_cases hs : slot ≤ e.1
    · rw [if_pos (decide_eq_true hs)] at h
      exact ⟨hs, (Option.filter_eq_some_iff.mp h.symm).1⟩
    · rw [if_neg (by simpa using hs)] at h
      cases h
  have hread : CreditsRead addr (fun dc => (self.setAddedCredits dc).materialisedCredits final)
      self.addedChanges.deferredCredits res.entries := fun e he => (hentry e he).2
  -- and their sum is the total from `slot` on
  have hT : ((self.materialisedCredits final).fromSlot slot).addressTotal addr =
      (res.entries.map fun e => e.2.raw.toNat).sum := by
    refine DeferredCredits.addressTotal_eq_sum_entries _ addr res fun s => ?_
    rw [hget s, hcontains, DeferredCredits.get_fromSlot]
    by_cases hs : slot ≤ s
    · rw [if_pos (decide_eq_true hs), if_pos hs, owed_filter_isZero]
    · rw [if_neg (by simpa using hs), if_neg hs]
  have hslash : self.trySlashDeferredCredits slot addr amount =
      .ok (amount.saturatingSub
          (res.entries.foldl (slashStep addr) (amount, self.addedChanges.deferredCredits)).1,
        self.setAddedCredits
          (res.entries.foldl (slashStep addr) (amount, self.addedChanges.deferredCredits)).2) := by
    rw [trySlashDeferredCredits, hres, Except.ok_bind]
    rfl
  have hrem := toNat_foldl_slashStep_fst addr res.entries amount self.addedChanges.deferredCredits
  refine ⟨_, _, hslash, ?_, ?_, ?_, ?_⟩
  · rw [Amount.toNat_saturatingSub, hrem, hT]
    omega
  · have htotal := addressTotal_foldl_slashStep addr hview slot res.entries amount _ hread
      res.sorted fun e he => (hentry e he).1
    rw [hself] at htotal
    rw [Amount.toNat_saturatingSub]
    omega
  · intro a s hs
    rw [get_foldl_slashStep_of_not_mem addr hview res.entries amount _ fun h => hs ⟨h.1, ?_⟩,
      hself]
    obtain ⟨e, he, rfl⟩ := List.mem_map.mp h.2
    exact (hentry e he).1
  · intro s₁ s₂ hs₁ hlt hchanged
    by_cases hmem : s₁ ∈ res.entries.map Prod.fst
    · rw [← hself] at hchanged ⊢
      exact filter_get_foldl_slashStep_of_lt addr hview res.entries amount _ hread res.sorted hmem
        hlt hchanged
    · -- a slot from `slot` on that was not read owes nothing, and the loop left it
      rw [get_foldl_slashStep_of_not_mem addr hview res.entries amount _ fun h => hmem h.2, hself]
      have hnone : res.get? s₁ = none := by
        cases hres₁ : res.get? s₁ with
        | none => rfl
        | some a =>
          exact absurd (List.mem_map.mpr ⟨(s₁, a), (SortedMap.mem_entries_iff _ _ _).mpr hres₁,
            rfl⟩) hmem
      rw [hget s₁, hcontains, if_pos (decide_eq_true hs₁)] at hnone
      exact hnone

/-- Slashing 4 coins from a credit of 7 added at slot `(5, 3)` takes 4 and
leaves 3. -/
theorem trySlashDeferredCredits_slashes_in_order_added_credit :
    let self : SpeculativeRollState :=
      ⟨⟨∅, 32, []⟩, ⟨[]⟩, { deferredCredits := DeferredCredits.new.insert ⟨5, 3⟩ zeroAddress ⟨7⟩ }⟩
    ∃ slashed next, self.trySlashDeferredCredits ⟨5, 0⟩ zeroAddress ⟨4⟩ = .ok (slashed, next) ∧
      slashed.raw.toNat = 4 ∧
      ((next.materialisedCredits .new).fromSlot ⟨5, 0⟩).addressTotal zeroAddress = 3 := by
  intro self
  have hT : ((self.materialisedCredits .new).fromSlot ⟨5, 0⟩).addressTotal zeroAddress = 7 := by
    decide
  obtain ⟨slashed, next, h, hslashed, htotal, -, -⟩ :=
    @trySlashDeferredCredits_slashes_in_order self .new
      ⟨PoSFinalState.deferredCreditsStored_empty 32, fun _ _ => rfl⟩ ⟨5, 0⟩ zeroAddress ⟨4⟩
  rw [hT] at hslashed htotal
  refine ⟨slashed, next, h, by rw [hslashed]; rfl, by rw [htotal, hslashed]; rfl⟩

end SpeculativeRollState

end Massa
