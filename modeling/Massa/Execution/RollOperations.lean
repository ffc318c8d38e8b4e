import Massa.Execution.SpeculativeRollState
import Massa.Models.Operation

/-!
# Roll operations (`execute_roll_buy_op`, `execute_roll_sell_op` of `execution.rs`)

A roll buy spends `roll_price * roll_count` coins of the buyer, checked, and
then adds the rolls with `add_rolls`, which saturates.  A roll sell lowers
the rolls with `try_sell_rolls` and raises the seller's deferred credit at
the last slot of the cycle three cycles later by `roll_price * roll_count`,
both the product and the sum saturating.

The value an address holds through these operations is its balance, the
price of its rolls, and its pending deferred credits (the total of its
materialised credits, `DeferredCredits.addressTotal`).

* `executeRollBuyOp_value` — when the new roll count fits in a `u64`, a buy
  moves exactly `roll_price * roll_count` from the balance into rolls.
* `trySellRolls_value` — when the credits and the price of the sale fit in a
  `u64`, a sale moves exactly that value from rolls into the credit at the
  reimbursement slot.

Without these bounds the saturation is silent: a buy by an address whose
roll count is already `u64::MAX` spends the coins and adds no roll.
-/

namespace Massa

/-- `ExecutionState::execute_roll_buy_op`, on the speculative ledger and roll
state of the context; `roll_price` and the ledger's `ledger_entry_base_cost`
come from the config.  The outer `Except` is a panic. -/
def executeRollBuyOp (rollPrice ledgerEntryBaseCost : Amount) (ledger : SpeculativeLedger)
    (rollState : SpeculativeRollState) (operation : OperationType) (buyerAddr : Address) :
    Except String (Except ExecutionError (SpeculativeLedger × SpeculativeRollState)) :=
  match operation with
  | .rollBuy rollCount =>
    match rollPrice.checkedMulU64 rollCount with
    | none => .ok (.error (.rollBuyOverflow buyerAddr rollCount))
    | some spendCoins =>
      -- `transfer_coins(Some(buyer_addr), None, spend_coins, false)`: no rights to check
      match ledger.transferCoins ledgerEntryBaseCost (some buyerAddr) none spendCoins with
      | .error err => .ok (.error (.rollBuyError buyerAddr rollCount err))
      | .ok ledger =>
        (rollState.addRolls buyerAddr rollCount).map fun rollState => .ok (ledger, rollState)
  | _ => .error "unexpected operation type"

/-- `ExecutionState::execute_roll_sell_op`: `try_sell_rolls` at the slot of the
context, its error wrapped. -/
def executeRollSellOp (slot : Slot) (periodsPerCycle : UInt64) (threadCount : UInt8)
    (rollPrice : Amount) (rollState : SpeculativeRollState) (operation : OperationType)
    (sellerAddr : Address) : Except String (Except ExecutionError SpeculativeRollState) :=
  match operation with
  | .rollSell rollCount =>
    (rollState.trySellRolls sellerAddr slot rollCount periodsPerCycle threadCount rollPrice).map
      (Except.mapError (.rollSellError sellerAddr rollCount))
  | _ => .error "unexpected operation type"

/-! ### The steps of a successful operation -/

/-- A successful buy: the price fits in a `u64`, the transfer succeeds and
the rolls are added. -/
theorem executeRollBuyOp_spec {rollPrice ledgerEntryBaseCost : Amount}
    {ledger ledger' : SpeculativeLedger} {rollState rollState' : SpeculativeRollState}
    {rollCount : UInt64} {buyerAddr : Address}
    (h : executeRollBuyOp rollPrice ledgerEntryBaseCost ledger rollState (.rollBuy rollCount)
      buyerAddr = .ok (.ok (ledger', rollState'))) :
    ∃ spendCoins, rollPrice.checkedMulU64 rollCount = some spendCoins ∧
      ledger.transferCoins ledgerEntryBaseCost (some buyerAddr) none spendCoins = .ok ledger' ∧
      rollState.addRolls buyerAddr rollCount = .ok rollState' := by
  simp only [executeRollBuyOp] at h
  cases hmul : rollPrice.checkedMulU64 rollCount with
  | none =>
    rw [hmul] at h
    cases h
  | some spendCoins =>
    rw [hmul] at h
    dsimp only at h
    cases htransfer :
        ledger.transferCoins ledgerEntryBaseCost (some buyerAddr) none spendCoins with
    | error err =>
      rw [htransfer] at h
      cases h
    | ok next =>
      rw [htransfer] at h
      cases hadd : rollState.addRolls buyerAddr rollCount with
      | error e =>
        rw [hadd] at h
        cases h
      | ok added =>
        rw [hadd] at h
        cases h
        exact ⟨spendCoins, rfl, htransfer, rfl⟩

/-! ### The value of an address -/

/-- **A buy.**  When the buyer's new roll count fits in a `u64`, a successful
buy lowers its balance by `roll_price * roll_count`, raises its roll count by
`roll_count`, and leaves the credits as they were. -/
theorem executeRollBuyOp_value {rollPrice ledgerEntryBaseCost : Amount}
    {ledger ledger' : SpeculativeLedger} {rollState rollState' : SpeculativeRollState}
    {rollCount : UInt64} {buyerAddr : Address}
    (h : executeRollBuyOp rollPrice ledgerEntryBaseCost ledger rollState (.rollBuy rollCount)
      buyerAddr = .ok (.ok (ledger', rollState'))) {rolls : UInt64}
    (hrolls : rollState.getRolls buyerAddr = .ok rolls)
    (hfit : rolls.toNat + rollCount.toNat < 2 ^ 64) :
    ∃ balance balance' rolls', ledger.getBalance buyerAddr = some balance ∧
      ledger'.getBalance buyerAddr = some balance' ∧ rollState'.getRolls buyerAddr = .ok rolls' ∧
      rollPrice.raw.toNat * rollCount.toNat ≤ balance.raw.toNat ∧
      balance'.raw.toNat = balance.raw.toNat - rollPrice.raw.toNat * rollCount.toNat ∧
      rolls'.toNat = rolls.toNat + rollCount.toNat ∧
      ∀ final, rollState'.materialisedCredits final = rollState.materialisedCredits final := by
  obtain ⟨spendCoins, hmul, htransfer, hadd⟩ := executeRollBuyOp_spec h
  obtain ⟨balance, hbalance, hle, balance', hbalance', hsub⟩ :=
    SpeculativeLedger.getBalance_transferCoins_debit htransfer
  obtain ⟨count, hcount, hrolls', hcredits⟩ := SpeculativeRollState.addRolls_spec hadd
  -- the count that `add_rolls` raises is the one read before
  obtain rfl : count = rolls := Except.ok.inj (hcount.symm.trans hrolls)
  have hspend := Amount.checkedMulU64_eq_some hmul
  refine ⟨balance, balance', saturatingAdd count rollCount, hbalance, hbalance', hrolls', ?_, ?_,
    toNat_saturatingAdd hfit, hcredits⟩
  · rw [← hspend]
    exact hle
  · rw [hsub, hspend]

/-- **A sale.**  Over the credits that the final state holds, when the
seller's pending credits and the price of the sale fit in a `u64`, a
successful `try_sell_rolls` lowers its roll count by `roll_count`, raises its
credit at the reimbursement slot by `roll_price * roll_count`, and its
pending credits by as much. -/
theorem trySellRolls_value {rollState rollState' : SpeculativeRollState}
    {final : DeferredCredits} (hfinal : rollState.finalState.Holds final)
    {sellerAddr : Address} {slot : Slot} {rollCount periodsPerCycle : UInt64}
    {threadCount : UInt8} {rollPrice : Amount}
    (h : rollState.trySellRolls sellerAddr slot rollCount periodsPerCycle threadCount rollPrice =
      .ok (.ok rollState'))
    (hfit : rollPrice.raw.toNat * rollCount.toNat +
      (rollState.materialisedCredits final).addressTotal sellerAddr < 2 ^ 64) :
    ∃ rolls rolls' targetSlot, rollState.getRolls sellerAddr = .ok rolls ∧
      rollState'.getRolls sellerAddr = .ok rolls' ∧
      rollCount.toNat ≤ rolls.toNat ∧ rolls'.toNat = rolls.toNat - rollCount.toNat ∧
      SpeculativeRollState.sellCreditSlot slot periodsPerCycle threadCount = .ok targetSlot ∧
      (((rollState'.materialisedCredits final).getAddressCreditsForSlot sellerAddr targetSlot).map
          fun amount => amount.raw.toNat).getD 0 =
        (((rollState.materialisedCredits final).getAddressCreditsForSlot sellerAddr targetSlot).map
          fun amount => amount.raw.toNat).getD 0 + rollPrice.raw.toNat * rollCount.toNat ∧
      (rollState'.materialisedCredits final).addressTotal sellerAddr =
        (rollState.materialisedCredits final).addressTotal sellerAddr +
          rollPrice.raw.toNat * rollCount.toNat := by
  obtain ⟨owned, targetSlot, credit, hget, hle, htarget, hcredit, rfl⟩ :=
    SpeculativeRollState.trySellRolls_spec h
  -- the credit read is the materialised one
  rw [SpeculativeRollState.getAddressDeferredCreditForSlot_eq hfinal] at hcredit
  obtain rfl := Except.ok.inj hcredit
  have hat := SpeculativeRollState.get_materialisedCredits_insert final rollState
    (rollState.addedChanges.rollChanges.insert sellerAddr (saturatingSub owned rollCount))
    targetSlot sellerAddr sellerAddr
    ((((rollState.materialisedCredits final).getAddressCreditsForSlot sellerAddr targetSlot).getD
      default).saturatingAdd (rollPrice.saturatingMulU64 rollCount))
  -- only the credit at the reimbursement slot changes
  have htotal := @DeferredCredits.addressTotal_update (rollState.materialisedCredits final) _
    sellerAddr targetSlot _ (fun s hs => by rw [hat s, if_neg fun hst => hs hst.1])
    (by rw [hat targetSlot, if_pos ⟨rfl, rfl⟩])
  set old := (rollState.materialisedCredits final).getAddressCreditsForSlot sellerAddr targetSlot
  have hgetD : (old.getD default).raw.toNat = (old.map fun amount => amount.raw.toNat).getD 0 := by
    cases old <;> rfl
  -- the old credit is part of the pending total, so neither step saturates
  have hold : (old.map fun amount => amount.raw.toNat).getD 0 ≤
      (rollState.materialisedCredits final).addressTotal sellerAddr :=
    (rollState.materialisedCredits final).getD_le_addressTotal sellerAddr targetSlot
  have hmul : (rollPrice.saturatingMulU64 rollCount).raw.toNat =
      rollPrice.raw.toNat * rollCount.toNat :=
    Amount.toNat_saturatingMulU64 (by omega)
  have hfitAdd : (old.getD default).raw.toNat + (rollPrice.saturatingMulU64 rollCount).raw.toNat <
      2 ^ 64 := by
    rw [hgetD, hmul]
    omega
  have hnew : ((old.getD default).saturatingAdd (rollPrice.saturatingMulU64 rollCount)).raw.toNat =
      (old.map fun amount => amount.raw.toNat).getD 0 + rollPrice.raw.toNat * rollCount.toNat := by
    rw [Amount.toNat_saturatingAdd hfitAdd, hgetD, hmul]
  refine ⟨owned, saturatingSub owned rollCount, targetSlot, hget, ?_,
    UInt64.le_iff_toNat_le.mp hle, toNat_saturatingSub _ _, htarget, ?_, ?_⟩
  · rw [SpeculativeRollState.getRolls_insert, if_pos rfl]
  · rw [hat targetSlot, if_pos ⟨rfl, rfl⟩, Option.map_some, Option.getD_some, hnew]
  · rw [hnew] at htotal
    omega

/-! ### Conservation -/

end Massa
