import Massa.Execution.SpeculativeExecutedOps
import Massa.Models.Operation
import Mathlib

/-!
# The operation pool (`massa-pool-worker/src/operation_pool.rs`, `types.rs`)

The pool keeps the operations it may put in the blocks its stakers produce:
a list `sorted_ops` of `OperationInfo`, best first, and a `Storage` holding a
reference to each of these operations.  `add_operations` appends the
operations it did not hold yet (dropping some when the pool is over its size
and excess limits); `refresh` filters out what is of no interest, sorts by
score, removes what would overdraw a sender and truncates to the size limit;
`get_block_operations` picks, best first, the operations of a slot that fit
the block's size, gas and count budgets, and claims them from the storage.

The model keeps what these passes read and write.  What the pool fetches from
other components (the PoS draws of its stakers, the execution statuses, the
sender balances) and the order by score (a float computed from the clock) are
parameters of `refresh`; the order is any permutation.  A storage is its
operation references with the operations they hold.

Over whole runs from `init`, `sorted_ops` and the storage agree
(`Reachable.mirrors`) and the pool stays within its limits
(`Reachable.sortedOps_length_le`); so `get_block_operations` never panics and returns
distinct operations that fit the block (`Reachable.getBlockOperations_fits`),
which `execute_operation`'s validity-range, gas and thread checks then never
reject (`Reachable.executeOperations_blockOperations`).
-/

namespace Massa

/-- `u8::trailing_zeros`: 8 for zero. -/
def trailingZeros (x : UInt8) : ℕ :=
  ((List.range 8).takeWhile fun i => !x.toNat.testBit i).length

/-- `u8::checked_shr`: none for a shift of 8 or more. -/
def checkedShr (x : UInt8) (rhs : ℕ) : Option UInt8 :=
  if rhs < 8 then some (x >>> UInt8.ofNat rhs) else none

/-- `Address::get_thread`: a user address is in the thread that the top bits
of its hash's first byte give; a smart-contract address is in thread 0. -/
def Address.getThread (self : Address) (threadCount : UInt8) : UInt8 :=
  match self with
  | .user hash => (checkedShr (hash.bytes.get 0) (8 - trailingZeros threadCount)).getD 0
  | .sc _ => 0

/-- `SecureShareOperation`: a signed operation, by what the pool and
execution read of it. -/
structure SecureShareOperation where
  id : OperationId
  content : Operation
  contentCreatorAddress : Address
  /-- `serialized_size()` -/
  serializedSize : ℕ

namespace SecureShareOperation

/-- `get_validity_range`: the periods from `expire_period` minus the validity
periods (saturating) to `expire_period`, both included. -/
def getValidityRange (self : SecureShareOperation) (operationValidityPeriod : UInt64) :
    UInt64 × UInt64 :=
  (saturatingSub self.content.expirePeriod operationValidityPeriod, self.content.expirePeriod)

/-- `get_gas_usage`. -/
def getGasUsage (self : SecureShareOperation) (baseOperationGasCost spCompilationCost : UInt64) :
    UInt64 :=
  let opGas := match self.content.op with
    | .executeSC _ maxGas _ _ => saturatingAdd maxGas spCompilationCost
    | .callSC _ _ _ maxGas _ => maxGas
    | .rollBuy _ => 0
    | .rollSell _ => 0
    | .transaction _ _ => 0
  saturatingAdd opGas baseOperationGasCost

/-- `get_max_spending`: the coins the operation may spend, fee included. -/
def getMaxSpending (self : SecureShareOperation) (rollPrice : Amount) : Amount :=
  let maxNonFeeSeqSpending := match self.content.op with
    | .transaction _ amount => amount
    | .rollBuy rollCount => rollPrice.saturatingMulU64 rollCount
    | .rollSell _ => ⟨0⟩
    | .executeSC _ _ maxCoins _ => maxCoins
    | .callSC _ _ _ _ coins => coins
  maxNonFeeSeqSpending.saturatingAdd self.content.fee

/-- What `execute_operation` reads of the operation, with the outcomes of
debiting its fee and of executing it. -/
def toExecution (self : SecureShareOperation) (threadCount : UInt8)
    (baseOperationGasCost spCompilationCost : UInt64) (feeError : Option String)
    (succeeds : Bool) : OperationInfo where
  id := self.id
  expirePeriod := self.content.expirePeriod
  thread := self.contentCreatorAddress.getThread threadCount
  gasUsage := self.getGasUsage baseOperationGasCost spCompilationCost
  feeError := feeError
  succeeds := succeeds

end SecureShareOperation

/-- The operation loop of `execute_slot` without the validity-range, block-gas
and thread checks of `execute_operation`: each operation is prepared and, if
that succeeds, recorded. -/
def executeOperationsUnchecked (blockSlot : Slot) :
    ExecutionContext → List OperationInfo → ExecutionContext × List OperationId
  | context, [] => (context, [])
  | context, operation :: rest =>
    match prepareOperationForExecution context operation with
    | .ok context' =>
      let r := executeOperationsUnchecked blockSlot (context'.insertExecutedOp operation.id
        operation.succeeds (Slot.new operation.expirePeriod operation.thread)) rest
      (r.1, operation.id :: r.2)
    | .error _ => executeOperationsUnchecked blockSlot context rest

/-- An operation that passes the validity-range and thread checks, and whose
gas the block still has: `execute_operation` prepares it and, if that
succeeds, records it and takes its gas. -/
theorem executeOperation_of_admitted {config : ExecutionConfig} {context : ExecutionContext}
    {operation : OperationInfo} {blockSlot : Slot} {gas : UInt64}
    (hvalid : operation.validityRangeContains config.operationValidityPeriod blockSlot.period = true)
    (hthread : operation.thread = blockSlot.thread) (hgas : operation.gasUsage ≤ gas) :
    executeOperation config context operation blockSlot gas =
      (prepareOperationForExecution context operation).map fun context' =>
        (context'.insertExecutedOp operation.id operation.succeeds
          (Slot.new operation.expirePeriod operation.thread), gas - operation.gasUsage) := by
  unfold executeOperation
  rw [hvalid, checkedSub, if_pos hgas]
  simp only [Bool.not_true, Bool.false_eq_true, if_false, hthread, ne_eq, not_true_eq_false]
  cases prepareOperationForExecution context operation <;> rfl

/-- **The checks never reject a block that fits.**  Over operations that are
all valid at the block's period and of its thread, whose gas usages sum to no
more than the gas left, the operation loop of `execute_slot` does what it
would do without the validity-range, block-gas and thread checks. -/
theorem executeOperations_eq_unchecked (config : ExecutionConfig) (blockSlot : Slot)
    (operations : List OperationInfo) :
    ∀ context gas, (∀ operation ∈ operations,
      operation.validityRangeContains config.operationValidityPeriod blockSlot.period = true ∧
        operation.thread = blockSlot.thread) →
      (operations.map (·.gasUsage.toNat)).sum ≤ gas.toNat →
      executeOperations config blockSlot context gas operations =
        executeOperationsUnchecked blockSlot context operations := by
  induction operations with
  | nil => exact fun _ _ _ _ => rfl
  | cons operation rest ih =>
    intro context gas hchecks hsum
    rw [List.map_cons, List.sum_cons] at hsum
    have hrest : ∀ operation ∈ rest,
        operation.validityRangeContains config.operationValidityPeriod blockSlot.period = true ∧
          operation.thread = blockSlot.thread :=
      fun o ho => hchecks o (List.mem_cons_of_mem _ ho)
    have hgas : operation.gasUsage ≤ gas := UInt64.le_iff_toNat_le.mpr (by omega)
    obtain ⟨hvalid, hthread⟩ := hchecks operation List.mem_cons_self
    rw [executeOperations, executeOperation_of_admitted hvalid hthread hgas,
      executeOperationsUnchecked]
    cases hprep : prepareOperationForExecution context operation with
    | error err =>
      -- a failed preparation takes no gas
      exact ih context gas hrest (by omega)
    | ok context' =>
      have hleft : (gas - operation.gasUsage).toNat = gas.toNat - operation.gasUsage.toNat :=
        UInt64.toNat_sub_of_le _ _ hgas
      dsimp only [Except.map]
      rw [ih _ _ hrest (by omega)]

namespace Pool

/-- `RangeInclusive::contains`. -/
def rangeContains (range : UInt64 × UInt64) (x : UInt64) : Bool :=
  range.1 ≤ x && x ≤ range.2

/-- `OperationInfo`: what the pool keeps of an operation. -/
structure OperationInfo where
  id : OperationId
  size : ℕ
  maxGasUsage : UInt64
  creatorAddress : Address
  thread : UInt8
  fee : Amount
  maxSpending : Amount
  validityPeriodRange : UInt64 × UInt64

/-- `OperationInfo::from_op`. -/
def OperationInfo.fromOp (op : SecureShareOperation) (operationValidityPeriods : UInt64)
    (rollPrice : Amount) (threadCount : UInt8) (baseOperationGasCost spCompilationCost : UInt64) :
    OperationInfo where
  id := op.id
  size := op.serializedSize
  maxGasUsage := op.getGasUsage baseOperationGasCost spCompilationCost
  creatorAddress := op.contentCreatorAddress
  fee := op.content.fee
  thread := op.contentCreatorAddress.getThread threadCount
  validityPeriodRange := op.getValidityRange operationValidityPeriods
  maxSpending := op.getMaxSpending rollPrice

/-- The fields of `PoolConfig` that the operation pool reads. -/
structure PoolConfig where
  threadCount : UInt8
  maxBlockSize : UInt32
  maxBlockGas : UInt64
  baseOperationGasCost : UInt64
  spCompilationCost : UInt64
  rollPrice : Amount
  operationValidityPeriods : UInt64
  maxOperationsPerBlock : UInt32
  maxOperationPoolSize : ℕ
  maxOperationPoolExcessItems : ℕ
  minimalFees : Amount

/-- `OperationInfo::from_op` with the pool's configuration. -/
def PoolConfig.infoOf (config : PoolConfig) (op : SecureShareOperation) : OperationInfo :=
  OperationInfo.fromOp op config.operationValidityPeriods config.rollPrice config.threadCount
    config.baseOperationGasCost config.spCompilationCost

/-- The operation references of a `Storage`, with the operations they hold. -/
abbrev OpRefs := SortedMap OperationId SecureShareOperation

/-- `Storage::drop_operation_refs`. -/
def dropOperationRefs (refs : OpRefs) (ids : List OperationId) : OpRefs :=
  ids.foldl (fun acc k => acc.erase k) refs

/-- `OperationPool`, without the channels, the wallet and the final periods
(which only the PoS draw search reads). -/
structure OperationPool where
  config : PoolConfig
  sortedOps : List OperationInfo
  storage : OpRefs

namespace OperationPool

/-- `OperationPool::init`: no operation, a storage without references. -/
def init (config : PoolConfig) : OperationPool := ⟨config, [], ∅⟩

/-- The operations that `add_operations` adds: those of `ops_storage` that the
pool does not hold, less the first ones when the pool would go over its size
and excess limits. -/
def addedOperations (self : OperationPool) (opsStorage : OpRefs) :
    List (OperationId × SecureShareOperation) :=
  -- `ops_storage.get_op_refs() - self.storage.get_op_refs()`, with the operations
  let newOps := opsStorage.entries.filter fun e => (self.storage.get? e.1).isNone
  let droppedItems := self.sortedOps.length + newOps.length - self.config.maxOperationPoolSize -
    self.config.maxOperationPoolExcessItems
  newOps.drop droppedItems

/-- `OperationPool::add_operations`: the added operations are appended, and
their references move to the pool's storage. -/
def addOperations (self : OperationPool) (opsStorage : OpRefs) : OperationPool :=
  let newOps := self.addedOperations opsStorage
  { self with
    sortedOps := self.sortedOps ++ newOps.map fun e => self.config.infoOf e.2
    storage := newOps.foldl (fun acc e => acc.insert e.1 e.2) self.storage }

/-- The `retain` predicate of `prefilter_ops`. -/
def prefilterRetains (config : PoolConfig) (execStatuses : SortedMap OperationId Bool)
    (posDraws : List Slot) (senderBalances : SortedMap Address Amount) (opInfo : OperationInfo) :
    Bool :=
  -- filter out ops that use too much resources
  let retain := decide (opInfo.maxGasUsage ≤ config.maxBlockGas) &&
    decide (opInfo.size ≤ config.maxBlockSize.toNat)
  -- filter out ops that are not valid during our PoS draws
  let retain := retain && posDraws.any fun slot =>
    opInfo.thread == slot.thread && rangeContains opInfo.validityPeriodRange slot.period
  -- filter ops which do not have minimal fees
  let retain := retain && (opInfo.fee.checkedSub config.minimalFees).isSome
  -- filter out ops that have been executed in final or candidate slots
  let retain := retain && !execStatuses.contains opInfo.id
  -- filter out ops that spend more than the sender's balance, or whose sender does not exist
  retain && match senderBalances.get? opInfo.creatorAddress with
    | some v => decide (opInfo.maxSpending.raw ≤ v.raw)
    | none => false

/-- `OperationPool::prefilter_ops`. -/
def prefilterOps (self : OperationPool) (execStatuses : SortedMap OperationId Bool)
    (posDraws : List Slot) (senderBalances : SortedMap Address Amount) : OperationPool :=
  let retains := prefilterRetains self.config execStatuses posDraws senderBalances
  { self with
    sortedOps := self.sortedOps.filter retains
    storage := dropOperationRefs self.storage
      ((self.sortedOps.filter fun opInfo => !retains opInfo).map (·.id)) }

/-- The `retain` loop of `eliminate_balance_overflows`: the balance of each
sender, read once (zero for a sender without one), pays the max spending of
its operations in order, and an operation it cannot pay is removed.  Returns
the retained operations and the removed ids. -/
def retainBalances (senderBalances : SortedMap Address Amount) :
    SortedMap Address Amount → List OperationInfo → List OperationInfo × List OperationId
  | _, [] => ([], [])
  | balanceCache, opInfo :: rest =>
    let balance := match balanceCache.get? opInfo.creatorAddress with
      | some balance => balance
      | none => (senderBalances.get? opInfo.creatorAddress).getD default
    match balance.checkedSub opInfo.maxSpending with
    | some v =>
      let r := retainBalances senderBalances (balanceCache.insert opInfo.creatorAddress v) rest
      (opInfo :: r.1, r.2)
    | none =>
      let r := retainBalances senderBalances (balanceCache.insert opInfo.creatorAddress balance) rest
      (r.1, opInfo.id :: r.2)

/-- `OperationPool::eliminate_balance_overflows`. -/
def eliminateBalanceOverflows (self : OperationPool) (senderBalances : SortedMap Address Amount) :
    OperationPool :=
  let r := retainBalances senderBalances ∅ self.sortedOps
  { self with sortedOps := r.1, storage := dropOperationRefs self.storage r.2 }

/-- `OperationPool::truncate_container`. -/
def truncateContainer (self : OperationPool) : OperationPool :=
  if self.sortedOps.length > self.config.maxOperationPoolSize then
    let removed := (self.sortedOps.drop self.config.maxOperationPoolSize).map (·.id)
    { self with
      sortedOps := self.sortedOps.take self.config.maxOperationPoolSize
      storage := dropOperationRefs self.storage removed }
  else self

/-- `OperationPool::refresh`, given the PoS draws, the execution statuses and
the sender balances it fetches, and the order by score that
`score_operations` and `sort_unstable_by` give. -/
def refresh (self : OperationPool) (posDraws : List Slot)
    (execStatuses : SortedMap OperationId Bool) (senderBalances : SortedMap Address Amount)
    (sortByScore : List OperationInfo → List OperationInfo) : OperationPool :=
  let self := self.prefilterOps execStatuses posDraws senderBalances
  let self := { self with sortedOps := sortByScore self.sortedOps }
  let self := self.eliminateBalanceOverflows senderBalances
  self.truncateContainer

/-- The loop of `get_block_operations`: best first, the operations of the
slot's thread valid at its period that fit the remaining space and gas, until
the count budget is spent. -/
def selectOperations (slot : Slot) :
    List OperationInfo → ℕ → UInt64 → UInt32 → List OperationId
  | [], _, _, _ => []
  | opInfo :: rest, remainingSpace, remainingGas, remainingOps =>
    if remainingOps = 0 then []
    else if opInfo.thread ≠ slot.thread then
      selectOperations slot rest remainingSpace remainingGas remainingOps
    else if !rangeContains opInfo.validityPeriodRange slot.period then
      selectOperations slot rest remainingSpace remainingGas remainingOps
    else if opInfo.size > remainingSpace then
      selectOperations slot rest remainingSpace remainingGas remainingOps
    else if opInfo.maxGasUsage > remainingGas then
      selectOperations slot rest remainingSpace remainingGas remainingOps
    else
      opInfo.id :: selectOperations slot rest (remainingSpace - opInfo.size)
        (remainingGas - opInfo.maxGasUsage) (remainingOps - 1)

/-- `OperationPool::get_block_operations`: the selected ids, and a storage
that claims them; the panic "could not claim all operations from storage" is
the error.  `claim_operation_refs` finds an operation when some storage holds
a reference to it: the model looks in the pool's own storage. -/
def getBlockOperations (self : OperationPool) (slot : Slot) :
    Except String (List OperationId × OpRefs) :=
  let opIds := selectOperations slot self.sortedOps self.config.maxBlockSize.toNat
    self.config.maxBlockGas self.config.maxOperationsPerBlock
  let claimOps := opIds.toFinset
  let claimedOps := self.storage.filter fun id _ => decide (id ∈ claimOps)
  if claimedOps.size ≠ claimOps.card then .error "could not claim all operations from storage"
  else .ok (opIds, claimedOps)

/-! ### Selection for a block -/

/-- Operations that may go in one block of the slot within the budgets: all
of the slot's thread and valid at its period, no more than the count budget,
with sizes and gas usages summing to no more than the space and gas budgets. -/
structure FitsBlock (slot : Slot) (sel : List OperationInfo) (space : ℕ) (gas : UInt64)
    (count : UInt32) : Prop where
  thread : ∀ opInfo ∈ sel, opInfo.thread = slot.thread
  valid : ∀ opInfo ∈ sel, rangeContains opInfo.validityPeriodRange slot.period = true
  count_le : sel.length ≤ count.toNat
  size_le : (sel.map (·.size)).sum ≤ space
  gas_le : (sel.map (·.maxGasUsage.toNat)).sum ≤ gas.toNat

theorem FitsBlock.nil (slot : Slot) (space : ℕ) (gas : UInt64) (count : UInt32) :
    FitsBlock slot [] space gas count where
  thread := by simp
  valid := by simp
  count_le := Nat.zero_le _
  size_le := Nat.zero_le _
  gas_le := Nat.zero_le _

/-- An operation taken from the budgets, before a selection that fits what
is left of them. -/
theorem FitsBlock.cons {slot : Slot} {opInfo : OperationInfo} {sel : List OperationInfo}
    {space : ℕ} {gas : UInt64} {count : UInt32}
    (h : FitsBlock slot sel (space - opInfo.size) (gas - opInfo.maxGasUsage) (count - 1))
    (hcount : count ≠ 0) (hthread : opInfo.thread = slot.thread)
    (hvalid : rangeContains opInfo.validityPeriodRange slot.period = true)
    (hspace : opInfo.size ≤ space) (hgas : opInfo.maxGasUsage ≤ gas) :
    FitsBlock slot (opInfo :: sel) space gas count := by
  have hcountpos : 0 < count.toNat := by
    have := UInt32.toNat_inj.not.mpr hcount
    simp only [UInt32.toNat_zero] at this
    omega
  -- what is left of the budgets, in `Nat`
  have hcount' : (count - 1).toNat = count.toNat - 1 := by
    have hone : (1 : UInt32) ≤ count := UInt32.le_iff_toNat_le.mpr hcountpos
    rw [UInt32.toNat_sub_of_le _ _ hone]
    rfl
  have hgas' : (gas - opInfo.maxGasUsage).toNat = gas.toNat - opInfo.maxGasUsage.toNat :=
    UInt64.toNat_sub_of_le _ _ hgas
  have hle : opInfo.maxGasUsage.toNat ≤ gas.toNat := UInt64.le_iff_toNat_le.mp hgas
  constructor
  · intro o ho
    rcases List.mem_cons.mp ho with rfl | ho
    · exact hthread
    · exact h.thread o ho
  · intro o ho
    rcases List.mem_cons.mp ho with rfl | ho
    · exact hvalid
    · exact h.valid o ho
  · have := h.count_le
    rw [List.length_cons]
    omega
  · have := h.size_le
    rw [List.map_cons, List.sum_cons]
    omega
  · have := h.gas_le
    rw [List.map_cons, List.sum_cons]
    omega

/-- **The selection loop.**  The ids it returns are those of a sublist of the
operations that fits the block within the budgets. -/
theorem selectOperations_spec (slot : Slot) (l : List OperationInfo) :
    ∀ (remainingSpace : ℕ) (remainingGas : UInt64) (remainingOps : UInt32),
      ∃ sel : List OperationInfo, sel.Sublist l ∧
        selectOperations slot l remainingSpace remainingGas remainingOps = sel.map (·.id) ∧
        FitsBlock slot sel remainingSpace remainingGas remainingOps := by
  induction l with
  | nil => exact fun space gas count => ⟨[], List.Sublist.slnil, rfl, FitsBlock.nil _ _ _ _⟩
  | cons opInfo rest ih =>
    intro remainingSpace remainingGas remainingOps
    -- a skipped operation: the rest is selected with the same budgets
    obtain ⟨sel, hsub, heq, hfits⟩ := ih remainingSpace remainingGas remainingOps
    have hskip : ∃ sel : List OperationInfo, sel.Sublist (opInfo :: rest) ∧
        selectOperations slot rest remainingSpace remainingGas remainingOps = sel.map (·.id) ∧
        FitsBlock slot sel remainingSpace remainingGas remainingOps :=
      ⟨sel, hsub.cons _, heq, hfits⟩
    rw [selectOperations]
    split_ifs with hops hthread hvalid hspace hgas
    · exact ⟨[], List.nil_sublist _, rfl, FitsBlock.nil _ _ _ _⟩
    · exact hskip
    · exact hskip
    · exact hskip
    · exact hskip
    · -- the accepted operation: the rest is selected with what is left
      obtain ⟨sel', hsub', heq', hfits'⟩ := ih (remainingSpace - opInfo.size)
        (remainingGas - opInfo.maxGasUsage) (remainingOps - 1)
      refine ⟨opInfo :: sel', hsub'.cons_cons _, by rw [heq']; rfl, hfits'.cons hops
        (not_not.mp hthread) (by simpa using hvalid) (Nat.le_of_not_gt hspace)
        (UInt64.not_lt.mp hgas)⟩


/-! ### The pool mirrors its storage -/

/-- `sorted_ops` and the storage agree: the ids of `sorted_ops` are distinct,
each is a reference of the storage and carries the information of its
operation, and every reference of the storage is one of them. -/
structure Mirrors (pool : OperationPool) : Prop where
  nodup : (pool.sortedOps.map (·.id)).Nodup
  info_of_mem : ∀ opInfo ∈ pool.sortedOps,
    ∃ op, pool.storage.get? opInfo.id = some op ∧ opInfo = pool.config.infoOf op
  mem_of_get : ∀ id op, pool.storage.get? id = some op → id ∈ pool.sortedOps.map (·.id)

theorem get?_dropOperationRefs (refs : OpRefs) (ids : List OperationId) (q : OperationId) :
    (dropOperationRefs refs ids).get? q = if q ∈ ids then none else refs.get? q := by
  rw [dropOperationRefs, SortedMap.get?_foldl_erase]
  split_ifs <;> rfl

/-- **A pass that removes operations.**  Keeping some of the operations, in
any order, and dropping the references of the others keeps the pool and its
storage in agreement. -/
theorem Mirrors.of_perm {pool : OperationPool} (h : pool.Mirrors) {kept removed : List OperationInfo}
    (hperm : (kept ++ removed).Perm pool.sortedOps) :
    Mirrors { pool with
      sortedOps := kept
      storage := dropOperationRefs pool.storage (removed.map (·.id)) } := by
  have hids : (kept.map (·.id) ++ removed.map (·.id)).Nodup := by
    rw [← List.map_append]
    exact (hperm.map _).nodup_iff.mpr h.nodup
  obtain ⟨hkept, -, hdisjoint⟩ := List.nodup_append.mp hids
  constructor
  · exact hkept
  · intro opInfo hmem
    obtain ⟨op, hget, heq⟩ := h.info_of_mem opInfo (hperm.subset (List.mem_append_left _ hmem))
    -- a kept operation is not among the removed ones
    have hnot : opInfo.id ∉ removed.map (·.id) := fun hr =>
      hdisjoint _ (List.mem_map_of_mem hmem) _ hr rfl
    exact ⟨op, by rw [get?_dropOperationRefs, if_neg hnot, hget], heq⟩
  · intro id op hget
    rw [get?_dropOperationRefs] at hget
    split_ifs at hget with hremoved
    have hmem := (hperm.map (·.id)).mem_iff.mpr (h.mem_of_get id op hget)
    rw [List.map_append, List.mem_append] at hmem
    exact hmem.resolve_right hremoved

/-- The removals of `eliminate_balance_overflows` are the operations it does
not retain. -/
theorem retainBalances_perm (senderBalances : SortedMap Address Amount) (l : List OperationInfo) :
    ∀ balanceCache, ∃ removed : List OperationInfo,
      ((retainBalances senderBalances balanceCache l).1 ++ removed).Perm l ∧
        (retainBalances senderBalances balanceCache l).2 = removed.map (·.id) := by
  induction l with
  | nil => exact fun _ => ⟨[], List.Perm.refl _, rfl⟩
  | cons opInfo rest ih =>
    intro balanceCache
    rw [retainBalances]
    split
    · obtain ⟨removed, hperm, hids⟩ := ih _
      exact ⟨removed, hperm.cons _, hids⟩
    · -- the operation the balance cannot pay is removed
      obtain ⟨removed, hperm, hids⟩ := ih _
      refine ⟨opInfo :: removed, List.perm_middle.trans (hperm.cons _), ?_⟩
      dsimp only
      rw [hids]
      rfl

theorem Mirrors.prefilterOps {pool : OperationPool} (h : pool.Mirrors)
    (execStatuses : SortedMap OperationId Bool) (posDraws : List Slot)
    (senderBalances : SortedMap Address Amount) :
    (pool.prefilterOps execStatuses posDraws senderBalances).Mirrors :=
  h.of_perm (List.filter_append_perm _ _)

theorem Mirrors.eliminateBalanceOverflows {pool : OperationPool} (h : pool.Mirrors)
    (senderBalances : SortedMap Address Amount) :
    (pool.eliminateBalanceOverflows senderBalances).Mirrors := by
  obtain ⟨removed, hperm, hids⟩ := retainBalances_perm senderBalances pool.sortedOps ∅
  unfold OperationPool.eliminateBalanceOverflows
  dsimp only
  rw [hids]
  exact h.of_perm hperm

theorem Mirrors.truncateContainer {pool : OperationPool} (h : pool.Mirrors) :
    pool.truncateContainer.Mirrors := by
  unfold OperationPool.truncateContainer
  split
  · exact h.of_perm (by rw [List.take_append_drop])
  · exact h

/-- The order by score is a permutation. -/
theorem Mirrors.sort {pool : OperationPool} (h : pool.Mirrors)
    {sortByScore : List OperationInfo → List OperationInfo}
    (hsort : ∀ l, (sortByScore l).Perm l) :
    Mirrors { pool with sortedOps := sortByScore pool.sortedOps } :=
  @Mirrors.of_perm pool h _ [] (by rw [List.append_nil]; exact hsort _)

theorem Mirrors.refresh {pool : OperationPool} (h : pool.Mirrors) (posDraws : List Slot)
    (execStatuses : SortedMap OperationId Bool) (senderBalances : SortedMap Address Amount)
    {sortByScore : List OperationInfo → List OperationInfo}
    (hsort : ∀ l, (sortByScore l).Perm l) :
    (pool.refresh posDraws execStatuses senderBalances sortByScore).Mirrors :=
  (((h.prefilterOps execStatuses posDraws senderBalances).sort hsort).eliminateBalanceOverflows
    senderBalances).truncateContainer


section AddOperations

variable (self : OperationPool) (opsStorage : OpRefs)

theorem addedOperations_sublist : (self.addedOperations opsStorage).Sublist opsStorage.entries :=
  (List.drop_sublist _ _).trans List.filter_sublist

/-- An added operation is one of `ops_storage` that the pool did not hold. -/
theorem get?_of_mem_addedOperations {e : OperationId × SecureShareOperation}
    (he : e ∈ self.addedOperations opsStorage) :
    opsStorage.get? e.1 = some e.2 ∧ self.storage.get? e.1 = none := by
  have hmem := List.mem_of_mem_drop he
  rw [List.mem_filter] at hmem
  exact ⟨(opsStorage.mem_entries_iff _ _).mp hmem.1, Option.isNone_iff_eq_none.mp hmem.2⟩

theorem nodup_addedOperations_keys : ((self.addedOperations opsStorage).map Prod.fst).Nodup :=
  ((addedOperations_sublist self opsStorage).map Prod.fst).nodup opsStorage.nodup_keys

/-- The storage after `add_operations`: the added references hold the
operations of `ops_storage`, the others are as they were. -/
theorem get?_addOperations_storage (q : OperationId) :
    (self.addOperations opsStorage).storage.get? q =
      if q ∈ (self.addedOperations opsStorage).map Prod.fst then opsStorage.get? q
      else self.storage.get? q := by
  show ((self.addedOperations opsStorage).foldl (fun acc e => acc.insert e.1 e.2) self.storage).get? q = _
  split_ifs with hq
  · obtain ⟨e, he, rfl⟩ := List.mem_map.mp hq
    -- the added keys are distinct, so `e` is the only entry under its key
    have hkey : ∀ e' ∈ self.addedOperations opsStorage, e'.1 = e.1 → e' = e := fun e' he' heq =>
      List.inj_on_of_nodup_map (nodup_addedOperations_keys self opsStorage) he' he heq
    rw [SortedMap.get?_foldl_insert_of_mem _ Prod.fst Prod.snd he hkey rfl,
      (get?_of_mem_addedOperations self opsStorage he).1]
  · exact SortedMap.get?_foldl_insert_of_forall_ne _ Prod.fst Prod.snd fun e he heq =>
      hq (heq ▸ List.mem_map_of_mem he)

/-- **`add_operations` keeps the pool and its storage in agreement**, when
`ops_storage` holds each operation under its id. -/
theorem Mirrors.addOperations (h : self.Mirrors)
    (hids : ∀ id op, opsStorage.get? id = some op → op.id = id) :
    (self.addOperations opsStorage).Mirrors := by
  set added := self.addedOperations opsStorage
  have hadded : ∀ e ∈ added, opsStorage.get? e.1 = some e.2 ∧ self.storage.get? e.1 = none :=
    fun e he => get?_of_mem_addedOperations self opsStorage he
  -- the information of an added operation has its key as id
  have hnewIds : (added.map fun e => self.config.infoOf e.2).map (·.id) = added.map Prod.fst := by
    rw [List.map_map]
    exact List.map_congr_left fun e he => hids e.1 e.2 (hadded e he).1
  -- the ids the pool holds are references of its storage, so none is added
  have hold : ∀ id ∈ self.sortedOps.map (·.id), id ∉ added.map Prod.fst := by
    intro id hid hnew
    obtain ⟨opInfo, hmem, rfl⟩ := List.mem_map.mp hid
    obtain ⟨e, he, heq⟩ := List.mem_map.mp hnew
    obtain ⟨op, hget, -⟩ := h.info_of_mem opInfo hmem
    rw [← heq, (hadded e he).2] at hget
    cases hget
  constructor
  · show ((self.sortedOps ++ added.map fun e => self.config.infoOf e.2).map (·.id)).Nodup
    rw [List.map_append, hnewIds]
    exact List.nodup_append.mpr ⟨h.nodup, nodup_addedOperations_keys self opsStorage,
      fun a ha b hb hab => hold a ha (hab ▸ hb)⟩
  · intro opInfo hmem
    rcases List.mem_append.mp hmem with hmem | hmem
    · obtain ⟨op, hget, heq⟩ := h.info_of_mem opInfo hmem
      refine ⟨op, ?_, heq⟩
      rw [get?_addOperations_storage, if_neg (hold _ (List.mem_map_of_mem hmem)), hget]
    · obtain ⟨e, he, rfl⟩ := List.mem_map.mp hmem
      refine ⟨e.2, ?_, rfl⟩
      have hid : (self.config.infoOf e.2).id = e.1 := hids e.1 e.2 (hadded e he).1
      rw [hid, get?_addOperations_storage, if_pos (List.mem_map_of_mem he), (hadded e he).1]
  · intro id op hget
    show id ∈ (self.sortedOps ++ added.map fun e => self.config.infoOf e.2).map (·.id)
    rw [List.map_append, hnewIds, List.mem_append]
    rw [get?_addOperations_storage] at hget
    split_ifs at hget with hnew
    · exact .inr hnew
    · exact .inl (h.mem_of_get id op hget)

/-- `add_operations` keeps the pool within its size and excess limits. -/
theorem length_addOperations_le
    (h : self.sortedOps.length ≤ self.config.maxOperationPoolSize +
      self.config.maxOperationPoolExcessItems) :
    (self.addOperations opsStorage).sortedOps.length ≤ self.config.maxOperationPoolSize +
      self.config.maxOperationPoolExcessItems := by
  simp only [OperationPool.addOperations, addedOperations, List.length_append, List.length_map,
    List.length_drop]
  omega

end AddOperations

@[simp] theorem config_addOperations (self : OperationPool) (opsStorage : OpRefs) :
    (self.addOperations opsStorage).config = self.config := rfl

@[simp] theorem config_truncateContainer (self : OperationPool) :
    self.truncateContainer.config = self.config := by
  unfold OperationPool.truncateContainer
  split <;> rfl

@[simp] theorem config_refresh (self : OperationPool) (posDraws : List Slot)
    (execStatuses : SortedMap OperationId Bool) (senderBalances : SortedMap Address Amount)
    (sortByScore : List OperationInfo → List OperationInfo) :
    (self.refresh posDraws execStatuses senderBalances sortByScore).config = self.config := by
  simp only [OperationPool.refresh, config_truncateContainer]
  rfl

theorem length_truncateContainer_le (self : OperationPool) :
    self.truncateContainer.sortedOps.length ≤ self.config.maxOperationPoolSize := by
  unfold OperationPool.truncateContainer
  split
  · simp
  · omega

/-- `refresh` ends by truncating the pool to its size limit. -/
theorem length_refresh_le (self : OperationPool) (posDraws : List Slot)
    (execStatuses : SortedMap OperationId Bool) (senderBalances : SortedMap Address Amount)
    (sortByScore : List OperationInfo → List OperationInfo) :
    (self.refresh posDraws execStatuses senderBalances sortByScore).sortedOps.length ≤
      self.config.maxOperationPoolSize :=
  length_truncateContainer_le _

/-- The pools that `init`, `add_operations` and `refresh` reach, when the
storage given to `add_operations` holds each operation under its id and the
order by score is a permutation. -/
inductive Reachable : OperationPool → Prop
  | init (config : PoolConfig) : Reachable (init config)
  | addOperations {pool : OperationPool} (opsStorage : OpRefs) : Reachable pool →
      (∀ id op, opsStorage.get? id = some op → op.id = id) →
      Reachable (pool.addOperations opsStorage)
  | refresh {pool : OperationPool} (posDraws : List Slot)
      (execStatuses : SortedMap OperationId Bool) (senderBalances : SortedMap Address Amount)
      (sortByScore : List OperationInfo → List OperationInfo) : Reachable pool →
      (∀ l, (sortByScore l).Perm l) →
      Reachable (pool.refresh posDraws execStatuses senderBalances sortByScore)

/-- A configuration with two threads, blocks of 1000 bytes and 1000 gas, and
room for ten operations. -/
def sampleConfig : PoolConfig where
  threadCount := 2
  maxBlockSize := 1000
  maxBlockGas := 1000
  baseOperationGasCost := 10
  spCompilationCost := 0
  rollPrice := ⟨100⟩
  operationValidityPeriods := 10
  maxOperationsPerBlock := 10
  maxOperationPoolSize := 10
  maxOperationPoolExcessItems := 5
  minimalFees := ⟨0⟩

/-- A roll sale of a smart-contract address (thread 0), expiring at period 10. -/
def sampleOperation : SecureShareOperation where
  id := ⟨⟨Vector.replicate 32 0⟩⟩
  content := ⟨⟨1⟩, 10, .rollSell 1⟩
  contentCreatorAddress := .sc ⟨Vector.replicate 32 0⟩
  serializedSize := 100

/-- A new pool given `sampleOperation`. -/
def samplePool : OperationPool :=
  (init sampleConfig).addOperations (SortedMap.singleton sampleOperation.id sampleOperation)

theorem reachable_samplePool : Reachable samplePool :=
  .addOperations _ (.init _) fun id op h => by
    rw [SortedMap.get?_singleton] at h
    split_ifs at h with hid
    cases h
    exact hid.symm

/-- **The pool mirrors its storage over whole runs.**  In every pool that
`add_operations` and `refresh` reach from `init`, the ids of `sorted_ops`
are pairwise distinct and are exactly the operation references of the
storage, each with the information of its operation. -/
theorem Reachable.mirrors {pool : OperationPool} (h : Reachable pool) : pool.Mirrors := by
  induction h with
  | init config =>
    constructor
    · exact List.nodup_nil
    · intro opInfo hmem
      cases hmem
    · intro id op hget
      cases hget
  | addOperations opsStorage _ hids ih => exact ih.addOperations _ _ hids
  | refresh posDraws execStatuses senderBalances sortByScore _ hsort ih =>
    exact ih.refresh posDraws execStatuses senderBalances hsort

theorem mirrors_samplePool : samplePool.Mirrors :=
  Reachable.mirrors reachable_samplePool

/-- **The pool stays within its limits.**  In every pool that
`add_operations` and `refresh` reach from `init`, `sorted_ops` holds at most
`max_operation_pool_size + max_operation_pool_excess_items` operations. -/
theorem Reachable.sortedOps_length_le {pool : OperationPool} (h : Reachable pool) :
    pool.sortedOps.length ≤ pool.config.maxOperationPoolSize +
      pool.config.maxOperationPoolExcessItems := by
  induction h with
  | init config => exact Nat.zero_le _
  | addOperations opsStorage _ _ ih => exact length_addOperations_le _ opsStorage ih
  | refresh posDraws execStatuses senderBalances sortByScore =>
    rw [config_refresh]
    exact (length_refresh_le _ posDraws execStatuses senderBalances sortByScore).trans
      (Nat.le_add_right _ _)

theorem length_samplePool_le : samplePool.sortedOps.length ≤
    samplePool.config.maxOperationPoolSize + samplePool.config.maxOperationPoolExcessItems :=
  Reachable.sortedOps_length_le reachable_samplePool


/-! ### Blocks built from the pool -/

/-- **`get_block_operations` on a pool that mirrors its storage.**  It does
not panic: it returns the ids, pairwise distinct, of a sublist of
`sorted_ops` that fits the block within its budgets, and a storage holding
exactly their operations. -/
theorem Mirrors.getBlockOperations {pool : OperationPool} (h : pool.Mirrors) (slot : Slot) :
    ∃ sel : List OperationInfo, sel.Sublist pool.sortedOps ∧ (sel.map (·.id)).Nodup ∧
      FitsBlock slot sel pool.config.maxBlockSize.toNat pool.config.maxBlockGas
        pool.config.maxOperationsPerBlock ∧
      ∃ claimed, pool.getBlockOperations slot = .ok (sel.map (·.id), claimed) ∧
        ∀ id, claimed.get? id = if id ∈ sel.map (·.id) then pool.storage.get? id else none := by
  obtain ⟨sel, hsub, hsel, hfits⟩ := selectOperations_spec slot pool.sortedOps
    pool.config.maxBlockSize.toNat pool.config.maxBlockGas pool.config.maxOperationsPerBlock
  set claimed := pool.storage.filter fun id _ => decide (id ∈ (sel.map (·.id)).toFinset)
  have hclaimed : ∀ id, claimed.get? id =
      if id ∈ sel.map (·.id) then pool.storage.get? id else none := by
    intro id
    rw [SortedMap.get?_filter]
    split_ifs with hid <;> cases pool.storage.get? id <;> simp [hid]
  -- every selected operation is a reference of the storage, so all are claimed
  have hkeys : claimed.keys = (sel.map (·.id)).toFinset := by
    ext id
    rw [SortedMap.mem_keys, hclaimed, List.mem_toFinset]
    split_ifs with hid
    · obtain ⟨opInfo, hmem, rfl⟩ := List.mem_map.mp hid
      obtain ⟨op, hget, -⟩ := h.info_of_mem opInfo (hsub.subset hmem)
      simp [hget, hid]
    · simp [hid]
  have hsize : claimed.size = (sel.map (·.id)).toFinset.card := by
    rw [← SortedMap.card_keys, hkeys]
  refine ⟨sel, hsub, (hsub.map (·.id)).nodup h.nodup, hfits, claimed, ?_, hclaimed⟩
  unfold OperationPool.getBlockOperations
  dsimp only
  rw [hsel, if_neg]
  exact not_not.mpr hsize

/-- **Blocks from the pool never panic and fit.**  In every pool that
`add_operations` and `refresh` reach from `init`, `get_block_operations`
returns, for every slot, pairwise distinct operations of a sublist of
`sorted_ops`, all of the slot's thread and valid at its period, at most
`max_operations_per_block` of them, with serialized sizes summing to at most
`max_block_size` and gas usages to at most `max_block_gas`, and a storage
that claims exactly them. -/
theorem Reachable.getBlockOperations_fits {pool : OperationPool} (h : Reachable pool)
    (slot : Slot) :
    ∃ sel : List OperationInfo, sel.Sublist pool.sortedOps ∧ (sel.map (·.id)).Nodup ∧
      FitsBlock slot sel pool.config.maxBlockSize.toNat pool.config.maxBlockGas
        pool.config.maxOperationsPerBlock ∧
      ∃ claimed, pool.getBlockOperations slot = .ok (sel.map (·.id), claimed) ∧
        ∀ id, claimed.get? id = if id ∈ sel.map (·.id) then pool.storage.get? id else none :=
  h.mirrors.getBlockOperations slot

theorem getBlockOperations_samplePool_fits :
    ∃ sel : List OperationInfo, sel.Sublist samplePool.sortedOps ∧ (sel.map (·.id)).Nodup ∧
      FitsBlock ⟨5, 0⟩ sel samplePool.config.maxBlockSize.toNat samplePool.config.maxBlockGas
        samplePool.config.maxOperationsPerBlock ∧
      ∃ claimed, samplePool.getBlockOperations ⟨5, 0⟩ = .ok (sel.map (·.id), claimed) ∧
        ∀ id, claimed.get? id =
          if id ∈ sel.map (·.id) then samplePool.storage.get? id else none :=
  Reachable.getBlockOperations_fits reachable_samplePool ⟨5, 0⟩

/-- The operations of a block the pool built, as `execute_slot` reads them:
each id's operation from the claimed storage, with the pool's thread count
and gas costs, and the outcome of debiting its fee and of executing it. -/
def blockOperations (config : PoolConfig) (claimed : OpRefs) (ids : List OperationId)
    (outcome : OperationId → Option String × Bool) : List Massa.OperationInfo :=
  (ids.filterMap claimed.get?).map fun op => op.toExecution config.threadCount
    config.baseOperationGasCost config.spCompilationCost (outcome op.id).1 (outcome op.id).2

/-- The operations claimed for the selected ids carry the selected
information, in order. -/
theorem map_infoOf_filterMap {config : PoolConfig} {claimed : OpRefs} (sel : List OperationInfo)
    (hsel : ∀ opInfo ∈ sel, ∃ op, claimed.get? opInfo.id = some op ∧ opInfo = config.infoOf op) :
    ((sel.map (·.id)).filterMap claimed.get?).map config.infoOf = sel := by
  induction sel with
  | nil => rfl
  | cons opInfo rest ih =>
    obtain ⟨op, hget, heq⟩ := hsel opInfo List.mem_cons_self
    rw [List.map_cons, List.filterMap_cons, hget]
    dsimp only
    rw [List.map_cons, ih fun o ho => hsel o (List.mem_cons_of_mem _ ho), heq]

/-- **Execution admits every block the pool builds.**  In every pool that
`add_operations` and `refresh` reach from `init`, for every slot, executing
the operations `get_block_operations` returns, in order, with an execution
configuration that has the pool's validity periods and block gas (and its
thread count and gas costs), never fails `execute_operation`'s validity-range,
block-gas or thread check, whatever the fees and executions give: the
operation loop of `execute_slot` does what it does without these checks. -/
theorem Reachable.executeOperations_blockOperations {pool : OperationPool} (h : Reachable pool)
    (slot : Slot) :
    ∃ ids claimed, pool.getBlockOperations slot = .ok (ids, claimed) ∧
      ∀ config : ExecutionConfig,
        config.operationValidityPeriod = pool.config.operationValidityPeriods →
        config.maxGasPerBlock = pool.config.maxBlockGas →
        ∀ (outcome : OperationId → Option String × Bool) (context : ExecutionContext),
          executeOperations config slot context config.maxGasPerBlock
              (blockOperations pool.config claimed ids outcome) =
            executeOperationsUnchecked slot context (blockOperations pool.config claimed ids outcome) := by
  have hm := h.mirrors
  obtain ⟨sel, hsub, -, hfits, claimed, hget, hclaimed⟩ := hm.getBlockOperations slot
  refine ⟨_, claimed, hget, fun config hvalidity hgas outcome context => ?_⟩
  -- the claimed operations are those the selected information came from
  have hsel : ∀ opInfo ∈ sel, ∃ op, claimed.get? opInfo.id = some op ∧
      opInfo = pool.config.infoOf op := by
    intro opInfo hmem
    obtain ⟨op, hop, heq⟩ := hm.info_of_mem opInfo (hsub.subset hmem)
    exact ⟨op, by rw [hclaimed, if_pos (List.mem_map_of_mem hmem), hop], heq⟩
  have hinfos := map_infoOf_filterMap sel hsel
  have hmemInfo : ∀ op ∈ (sel.map (·.id)).filterMap claimed.get?, pool.config.infoOf op ∈ sel :=
    fun op hop => hinfos ▸ List.mem_map_of_mem hop
  apply executeOperations_eq_unchecked
  · intro operation hmem
    obtain ⟨op, hop, rfl⟩ := List.mem_map.mp hmem
    have hinfo := hmemInfo op hop
    refine ⟨?_, hfits.thread _ hinfo⟩
    rw [hvalidity]
    exact hfits.valid _ hinfo
  · -- the gas usages are those of the selection
    have hsum := hfits.gas_le
    rw [← hinfos, List.map_map] at hsum
    rw [blockOperations, List.map_map, hgas]
    exact hsum

theorem executeOperations_samplePool :
    ∃ ids claimed, samplePool.getBlockOperations ⟨5, 0⟩ = .ok (ids, claimed) ∧
      ∀ config : ExecutionConfig,
        config.operationValidityPeriod = samplePool.config.operationValidityPeriods →
        config.maxGasPerBlock = samplePool.config.maxBlockGas →
        ∀ (outcome : OperationId → Option String × Bool) (context : ExecutionContext),
          executeOperations config ⟨5, 0⟩ context config.maxGasPerBlock
              (blockOperations samplePool.config claimed ids outcome) =
            executeOperationsUnchecked ⟨5, 0⟩ context
              (blockOperations samplePool.config claimed ids outcome) :=
  Reachable.executeOperations_blockOperations reachable_samplePool ⟨5, 0⟩

end OperationPool

end Pool

end Massa
