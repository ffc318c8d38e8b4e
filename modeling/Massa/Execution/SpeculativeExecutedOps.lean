import Massa.Execution.ActiveHistory
import Massa.ExecutedOps.Final

/-!
# The replay checks of block execution

(`speculative_executed_ops.rs`, `speculative_executed_denunciations.rs`, and
`execute_operation`, `execute_denunciation` of `execution.rs`)

While a slot executes, an operation or a denunciation counts as executed when
the slot has already executed it, when an output of the active history has,
or when the final records contain it.  `execute_operation` checks the
validity range, the block gas and the thread, and then
`prepare_operation_for_execution` refuses an executed operation before the
fee is debited; whatever the execution then does, the operation is recorded
until `(expire_period, thread)`.  `execute_denunciation` refuses a
denunciation that is too old, in the future or executed, and records it
before slashing.

Operations and denunciations are modelled by what these checks read of them
(`OperationInfo`, `DenunciationInfo`); the effects of an execution on the
ledger are not modelled here.  `executeOperation_eq_ok` and
`executeDenunciation_eq_ok` say everything a successful call implies.
-/

namespace Massa

/-- `u64::saturating_sub`. -/
def saturatingSub (a b : UInt64) : UInt64 :=
  if b ≤ a then a - b else 0

/-- A saturating difference is the difference of natural numbers. -/
theorem toNat_saturatingSub (a b : UInt64) : (saturatingSub a b).toNat = a.toNat - b.toNat := by
  unfold saturatingSub
  split
  · rename_i hle
    rw [UInt64.toNat_sub_of_le _ _ hle]
  · rename_i hlt
    have hlt' : a.toNat < b.toNat := UInt64.lt_iff_toNat_lt.mp (UInt64.not_le.mp hlt)
    show 0 = a.toNat - b.toNat
    omega

/-- `SpeculativeExecutedOps`. -/
structure SpeculativeExecutedOps where
  finalState : ExecutedOps
  activeHistory : ActiveHistory
  executedOps : ExecutedOpsChanges

namespace SpeculativeExecutedOps

/-- `SpeculativeExecutedOps::is_op_executed`. -/
def isOpExecuted (self : SpeculativeExecutedOps) (opId : OperationId) : Bool :=
  if self.executedOps.contains opId then true
  else
    match self.activeHistory.fetchExecutedOp opId with
    | .present _ => true
    -- `Absent` is `unreachable!()`: the history never answers it for an operation
    | _ => self.finalState.contains opId

/-- `SpeculativeExecutedOps::insert_executed_op`. -/
def insertExecutedOp (self : SpeculativeExecutedOps) (opId : OperationId) (opExecStatus : Bool)
    (opValidUntilSlot : Slot) : SpeculativeExecutedOps :=
  { self with executedOps := self.executedOps.insert opId (opExecStatus, opValidUntilSlot) }

/-- An operation executed in the slot, in the history or in the final
records counts as executed. -/
theorem isOpExecuted_of_recorded (self : SpeculativeExecutedOps) (opId : OperationId)
    (h : self.executedOps.contains opId = true ∨
      (∃ o ∈ self.activeHistory.outputs, o.stateChanges.executedOpsChanges.contains opId = true) ∨
      self.finalState.contains opId = true) :
    self.isOpExecuted opId = true := by
  unfold isOpExecuted
  rcases h with h | h | h
  · rw [if_pos h]
  · rw [(self.activeHistory.fetchExecutedOp_eq_present_iff opId).mpr h]
    simp
  · split
    · rfl
    · split <;> simp_all

end SpeculativeExecutedOps

/-- `SpeculativeExecutedDenunciations`. -/
structure SpeculativeExecutedDenunciations where
  finalState : ExecutedDenunciations
  activeHistory : ActiveHistory
  executedDenunciations : ExecutedDenunciationsChanges

namespace SpeculativeExecutedDenunciations

/-- `SpeculativeExecutedDenunciations::is_denunciation_executed`. -/
def isDenunciationExecuted (self : SpeculativeExecutedDenunciations) (deIdx : DenunciationIndex) :
    Bool :=
  if deIdx ∈ self.executedDenunciations then true
  else
    match self.activeHistory.fetchExecutedDenunciation deIdx with
    | .present _ => true
    -- `Absent` is `unreachable!()`, as for operations
    | _ => self.finalState.contains deIdx

/-- `SpeculativeExecutedDenunciations::insert_executed_denunciation`. -/
def insertExecutedDenunciation (self : SpeculativeExecutedDenunciations)
    (deIdx : DenunciationIndex) : SpeculativeExecutedDenunciations :=
  { self with executedDenunciations := self.executedDenunciations.insert deIdx }

theorem isDenunciationExecuted_of_recorded (self : SpeculativeExecutedDenunciations)
    (deIdx : DenunciationIndex)
    (h : deIdx ∈ self.executedDenunciations ∨
      (∃ o ∈ self.activeHistory.outputs, deIdx ∈ o.stateChanges.executedDenunciationsChanges) ∨
      self.finalState.contains deIdx = true) :
    self.isDenunciationExecuted deIdx = true := by
  unfold isDenunciationExecuted
  rcases h with h | h | h
  · rw [if_pos h]
  · rw [(self.activeHistory.fetchExecutedDenunciation_eq_present_iff deIdx).mpr h]
    simp
  · split
    · rfl
    · split <;> simp_all

end SpeculativeExecutedDenunciations

/-- The fields of `ExecutionConfig` that the replay checks read. -/
structure ExecutionConfig where
  operationValidityPeriod : UInt64
  denunciationExpirePeriods : UInt64
  lastStartPeriod : UInt64
  maxGasPerBlock : UInt64

/-- An operation of a block, by what `execute_operation` reads of it. -/
structure OperationInfo where
  id : OperationId
  expirePeriod : UInt64
  /-- `sender_addr.get_thread(thread_count)` -/
  thread : UInt8
  /-- `operation.get_gas_usage(..)` -/
  gasUsage : UInt64
  /-- the error of debiting the fee from the sender, if it fails -/
  feeError : Option String
  /-- whether the execution, the max-spending check included, succeeds -/
  succeeds : Bool

/-- `Operation::get_validity_range(operation_validity_period).contains(&period)`. -/
def OperationInfo.validityRangeContains (operation : OperationInfo)
    (operationValidityPeriod period : UInt64) : Bool :=
  saturatingSub operation.expirePeriod operationValidityPeriod ≤ period &&
    period ≤ operation.expirePeriod

/-- A denunciation of a block, by what `execute_denunciation` reads of it;
its slot is that of its index. -/
structure DenunciationInfo where
  /-- `DenunciationIndex::from(denunciation)` -/
  index : DenunciationIndex
  /-- `denunciation.is_valid()` -/
  isValid : Bool
  /-- the selector check: the denounced address was the one selected -/
  selected : Bool

/-- The variants of `ExecutionError` that the replay checks, the coin
transfers and the roll operations return.  A `Display`-formatted message is
kept as its arguments. -/
inductive ExecutionError where
  | invalidSlotRange
  | notEnoughGas (msg : String)
  | includeOperationError (msg : String)
  | includeDenunciationError (msg : String)
  /-- `RuntimeError("spending address {from_addr} not found")`. -/
  | spendingAddressNotFound (fromAddr : Address)
  /-- `RuntimeError("failed to transfer {amount} coins from spending address
  {from_addr} due to insufficient balance {balance}")`. -/
  | insufficientBalance (amount : Amount) (fromAddr : Address) (balance : Amount)
  /-- `RuntimeError("overflow in crediting address {to_addr} balance
  {old_balance} due to adding {amount} coins to balance")`. -/
  | creditOverflow (toAddr : Address) (oldBalance amount : Amount)
  /-- `RuntimeError("insufficient amount {amount} to create credited address
  {to_addr}")`. -/
  | insufficientAmountToCreate (amount : Amount) (toAddr : Address)
  /-- `RollBuyError("{buyer_addr} failed to buy {roll_count} rolls: overflow on
  the required coin amount")`. -/
  | rollBuyOverflow (buyerAddr : Address) (rollCount : UInt64)
  /-- `RollBuyError("{buyer_addr} failed to buy {roll_count} rolls: {err}")`. -/
  | rollBuyError (buyerAddr : Address) (rollCount : UInt64) (err : ExecutionError)
  /-- `RollSellError("{seller_addr} tried to sell {roll_count} rolls but only
  has {owned_count}")`. -/
  | rollSellNotEnough (sellerAddr : Address) (rollCount ownedCount : UInt64)
  /-- `RollSellError("{seller_addr} failed to sell {roll_count} rolls: {err}")`. -/
  | rollSellError (sellerAddr : Address) (rollCount : UInt64) (err : ExecutionError)
  deriving DecidableEq, Repr

/-- The part of `ExecutionContext` that the replay checks read and write. -/
structure ExecutionContext where
  speculativeExecutedOps : SpeculativeExecutedOps
  speculativeExecutedDenunciations : SpeculativeExecutedDenunciations

namespace ExecutionContext

/-- `ExecutionContext::insert_executed_op`. -/
def insertExecutedOp (self : ExecutionContext) (opId : OperationId) (opExecStatus : Bool)
    (opValidUntilSlot : Slot) : ExecutionContext :=
  { self with
    speculativeExecutedOps :=
      self.speculativeExecutedOps.insertExecutedOp opId opExecStatus opValidUntilSlot }

/-- `ExecutionContext::insert_executed_denunciation`. -/
def insertExecutedDenunciation (self : ExecutionContext) (deIdx : DenunciationIndex) :
    ExecutionContext :=
  { self with
    speculativeExecutedDenunciations :=
      self.speculativeExecutedDenunciations.insertExecutedDenunciation deIdx }

end ExecutionContext

/-- `prepare_operation_for_execution`: the replay check, then the fee. -/
def prepareOperationForExecution (context : ExecutionContext) (operation : OperationInfo) :
    Except ExecutionError ExecutionContext :=
  if context.speculativeExecutedOps.isOpExecuted operation.id then
    .error (.includeOperationError "operation was executed previously")
  else
    match operation.feeError with
    | some err => .error (.includeOperationError ("could not spend fees: " ++ err))
    | none => .ok context

/-- `execute_operation`, returning the context and the remaining block gas. -/
def executeOperation (config : ExecutionConfig) (context : ExecutionContext)
    (operation : OperationInfo) (blockSlot : Slot) (remainingBlockGas : UInt64) :
    Except ExecutionError (ExecutionContext × UInt64) :=
  if !operation.validityRangeContains config.operationValidityPeriod blockSlot.period then
    .error .invalidSlotRange
  else
    match checkedSub remainingBlockGas operation.gasUsage with
    | none => .error (.notEnoughGas "not enough remaining block gas to execute operation")
    | some newRemainingBlockGas =>
      if operation.thread ≠ blockSlot.thread then
        .error (.includeOperationError "operation vs block thread mismatch")
      else
        match prepareOperationForExecution context operation with
        | .error err => .error err
        | .ok context =>
          -- recorded whether the execution succeeds or is reverted to the snapshot
          .ok (context.insertExecutedOp operation.id operation.succeeds
            (Slot.new operation.expirePeriod operation.thread), newRemainingBlockGas)

/-- `execute_denunciation`. -/
def executeDenunciation (config : ExecutionConfig) (context : ExecutionContext)
    (denunciation : DenunciationInfo) (blockSlot : Slot) : Except ExecutionError ExecutionContext :=
  let deSlot := denunciation.index.getSlot
  if deSlot.period ≤ config.lastStartPeriod then
    .error (.includeDenunciationError ("Denunciation target " ++ deSlot.display ++
      " is before the last start period: " ++ toString config.lastStartPeriod))
  else if !denunciation.isValid then
    .error (.includeDenunciationError "denunciation is not valid")
  else if Denunciation.isExpired deSlot.period blockSlot.period config.denunciationExpirePeriods then
    .error (.includeDenunciationError ("Denunciation target " ++ deSlot.display ++
      " is too old with respect to the block " ++ blockSlot.display))
  else if deSlot > blockSlot then
    .error (.includeDenunciationError ("Denunciation target " ++ deSlot.display ++
      " is at a later slot than the block slot " ++ blockSlot.display))
  else if context.speculativeExecutedDenunciations.isDenunciationExecuted denunciation.index then
    .error (.includeDenunciationError "Denunciation was already executed")
  else if !denunciation.selected then
    .error (.includeDenunciationError
      "Attempt to execute a denunciation but address was not selected")
  else
    .ok (context.insertExecutedDenunciation denunciation.index)

/-- The operation loop of `execute_slot`: the operations run in block order,
and an error is logged and skipped.  Also returns the ids of the operations
whose `execute_operation` returned `Ok`. -/
def executeOperations (config : ExecutionConfig) (blockSlot : Slot) :
    ExecutionContext → UInt64 → List OperationInfo → ExecutionContext × List OperationId
  | context, _, [] => (context, [])
  | context, remainingBlockGas, operation :: rest =>
    match executeOperation config context operation blockSlot remainingBlockGas with
    | .ok (context', remainingBlockGas') =>
      let r := executeOperations config blockSlot context' remainingBlockGas' rest
      (r.1, operation.id :: r.2)
    | .error _ => executeOperations config blockSlot context remainingBlockGas rest

/-- The denunciation loop of `execute_slot`, returning the indexes of the
denunciations whose `execute_denunciation` returned `Ok`. -/
def executeDenunciations (config : ExecutionConfig) (blockSlot : Slot) :
    ExecutionContext → List DenunciationInfo → ExecutionContext × List DenunciationIndex
  | context, [] => (context, [])
  | context, denunciation :: rest =>
    match executeDenunciation config context denunciation blockSlot with
    | .ok context' =>
      let r := executeDenunciations config blockSlot context' rest
      (r.1, denunciation.index :: r.2)
    | .error _ => executeDenunciations config blockSlot context rest

section Spec

variable {config : ExecutionConfig} {context context' : ExecutionContext} {blockSlot : Slot}

/-- `prepare_operation_for_execution` succeeds on an operation that was not
executed and whose fee is paid, and then leaves the replay records as they are. -/
theorem prepareOperationForExecution_eq_ok {operation : OperationInfo}
    (h : prepareOperationForExecution context operation = .ok context') :
    context.speculativeExecutedOps.isOpExecuted operation.id = false ∧
      operation.feeError = none ∧ context' = context := by
  unfold prepareOperationForExecution at h
  split at h
  · cases h
  · next hexec =>
    split at h
    · cases h
    · next hfee =>
      cases h
      exact ⟨by simpa using hexec, hfee, rfl⟩

/-- What an `Ok` of `execute_operation` implies: the checks passed, the
operation was not executed, and it is now recorded until
`(expire_period, thread)`. -/
theorem executeOperation_eq_ok {operation : OperationInfo} {gas gas' : UInt64}
    (h : executeOperation config context operation blockSlot gas = .ok (context', gas')) :
    operation.validityRangeContains config.operationValidityPeriod blockSlot.period = true ∧
      operation.thread = blockSlot.thread ∧
      context.speculativeExecutedOps.isOpExecuted operation.id = false ∧
      context' = context.insertExecutedOp operation.id operation.succeeds
        (Slot.new operation.expirePeriod operation.thread) := by
  unfold executeOperation at h
  split at h
  · cases h
  · next hvalid =>
    -- the gas check, the thread check, then the preparation
    split at h
    · cases h
    split at h
    · cases h
    · next hthread =>
      split at h
      · cases h
      · next prepared hprep =>
        cases h
        obtain ⟨hexec, -, rfl⟩ := prepareOperationForExecution_eq_ok hprep
        exact ⟨by simpa using hvalid, not_not.mp hthread, hexec, rfl⟩

/-- What an `Ok` of `execute_denunciation` implies. -/
theorem executeDenunciation_eq_ok {denunciation : DenunciationInfo}
    (h : executeDenunciation config context denunciation blockSlot = .ok context') :
    Denunciation.isExpired denunciation.index.getSlot.period blockSlot.period
        config.denunciationExpirePeriods = false ∧
      context.speculativeExecutedDenunciations.isDenunciationExecuted denunciation.index = false ∧
      context' = context.insertExecutedDenunciation denunciation.index := by
  unfold executeDenunciation at h
  simp only at h
  split at h
  · cases h
  split at h
  · cases h
  split at h
  · cases h
  · next hexp =>
    split at h
    · cases h
    split at h
    · cases h
    · next hexec =>
      split at h
      · cases h
      · cases h
        exact ⟨by simpa using hexp, by simpa using hexec, rfl⟩

end Spec

end Massa
