import Massa.Execution.ProductionStats
import Massa.Execution.SpeculativeExecutedOps
import Massa.Lib.Replay
import Mathlib

/-!
# Candidate and final slots (`execution.rs`: `execute_candidate_slot`, `execute_final_slot`)

Execution runs slots ahead of finality: a candidate slot is executed on top
of the final state and the active history, and its output is appended to the
history; a candidate slot executed again first truncates the history from
itself.  When a slot becomes final, the output at the front of the history is
applied to the final state if it is the one of that slot and block; otherwise
the history is dropped and the slot is executed again on the final state.
Applying an output to the final state records its executed operations and
denunciations, and prunes the records that can no longer be replayed.

The model keeps of `ExecutionState` what replay protection reads and writes:
the cursors, the active history and the final records.  A slot's execution is
that of its block's operations and denunciations (`executeOperations`,
`executeDenunciations`); the asynchronous messages and the block rewards
change no replay record.  Whether the cached output executed the target
block compares block ids, which are not modelled: it is a parameter.

The main results are `Run.executedOnce` and `Run.denunciationExecutedOnce`:
along every run of candidate and final slots, no operation and no
denunciation is executed by two outputs of the chain, although the final
records are pruned.  Both come from the invariant `ReplaySafe`, an instance
of the library's `Replay.Safe` for each kind of record, and its step lemmas
`ReplaySafe.executeCandidateSlot` and `ReplaySafe.executeFinalSlot`.
-/

namespace Massa

/-- A block to execute, by what the replay checks read of it: its operations
and its denunciations in block order. -/
structure BlockExecution where
  operations : List OperationInfo
  denunciations : List DenunciationInfo

/-- `ActiveHistory::truncate_from`: drop the outputs from the slot on. -/
def ActiveHistory.truncateFrom (self : ActiveHistory) (slot : Slot) (threadCount : UInt8) :
    ActiveHistory :=
  match self.getSlotIndex slot threadCount with
  | .past => ⟨[]⟩
  | .found index => ⟨self.outputs.take index⟩
  | _ => self

/-- `ActiveHistory::truncate_from` keeps a prefix of the outputs. -/
theorem ActiveHistory.truncateFrom_sublist (self : ActiveHistory) (slot : Slot)
    (threadCount : UInt8) : List.Sublist (self.truncateFrom slot threadCount).outputs self.outputs := by
  unfold truncateFrom
  split
  · exact List.nil_sublist _
  · exact List.take_sublist _ _
  · exact List.Sublist.refl _

/-! ### The replay records of a slot's execution -/

namespace SpeculativeExecutedOps

/-- An operation counts as not executed exactly when none of the three
records holds it: the slot's changes, the active history, the final state. -/
theorem isOpExecuted_eq_false_iff (self : SpeculativeExecutedOps) (opId : OperationId) :
    self.isOpExecuted opId = false ↔
      self.executedOps.contains opId = false ∧
        (∀ o ∈ self.activeHistory.outputs,
          o.stateChanges.executedOpsChanges.contains opId = false) ∧
        self.finalState.contains opId = false := by
  constructor
  · intro h
    have hnot := fun hrec => Bool.false_ne_true (h.symm.trans (self.isOpExecuted_of_recorded opId hrec))
    exact ⟨Bool.eq_false_iff.mpr fun hc => hnot (.inl hc),
      fun o ho => Bool.eq_false_iff.mpr fun hc => hnot (.inr (.inl ⟨o, ho, hc⟩)),
      Bool.eq_false_iff.mpr fun hc => hnot (.inr (.inr hc))⟩
  · rintro ⟨hchanges, hhistory, hfinal⟩
    -- the history has no information, so the final records answer
    have hfetch : self.activeHistory.fetchExecutedOp opId ≠ .present () := by
      rw [Ne, ActiveHistory.fetchExecutedOp_eq_present_iff]
      rintro ⟨o, ho, hc⟩
      rw [hhistory o ho] at hc
      cases hc
    unfold isOpExecuted
    rw [if_neg (by rw [hchanges]; decide)]
    split
    · next u hu =>
      exact absurd hu hfetch
    · exact hfinal

/-- Recording an operation only adds to what counts as executed. -/
theorem isOpExecuted_of_insertExecutedOp {self : SpeculativeExecutedOps} {opId q : OperationId}
    {opExecStatus : Bool} {opValidUntilSlot : Slot}
    (h : (self.insertExecutedOp opId opExecStatus opValidUntilSlot).isOpExecuted q = false) :
    self.isOpExecuted q = false := by
  rw [isOpExecuted_eq_false_iff] at h ⊢
  obtain ⟨hchanges, hhistory, hfinal⟩ := h
  simp only [insertExecutedOp, SortedMap.contains_insert, Bool.or_eq_false_iff] at hchanges
  exact ⟨hchanges.2, hhistory, hfinal⟩

end SpeculativeExecutedOps

/-- An operation that passes the range and thread checks at a slot is valid
until a slot at or after it. -/
theorem OperationInfo.le_new_of_validityRangeContains {operation : OperationInfo}
    {operationValidityPeriod : UInt64} {slot : Slot}
    (hrange : operation.validityRangeContains operationValidityPeriod slot.period = true)
    (hthread : operation.thread = slot.thread) :
    slot ≤ Slot.new operation.expirePeriod operation.thread := by
  simp only [validityRangeContains, Bool.and_eq_true, decide_eq_true_eq] at hrange
  have hle : slot.period.toNat ≤ operation.expirePeriod.toNat := UInt64.le_iff_toNat_le.mp hrange.2
  rw [Slot.le_iff, hthread]
  show slot.period.toNat < operation.expirePeriod.toNat ∨
    (slot.period.toNat = operation.expirePeriod.toNat ∧ slot.thread.toNat ≤ slot.thread.toNat)
  omega

/-- The records of the operation loop: a new record is that of an operation
of the block that passed the range and thread checks and that was not
executed when the loop started. -/
theorem executeOperations_recorded (config : ExecutionConfig) (blockSlot : Slot)
    (operations : List OperationInfo) (context : ExecutionContext) (gas : UInt64)
    {x : OperationId} {v : Bool × Slot}
    (h : (executeOperations config blockSlot context gas operations).1.speculativeExecutedOps.executedOps.get? x =
      some v) :
    context.speculativeExecutedOps.executedOps.get? x = some v ∨
      ∃ operation ∈ operations, operation.id = x ∧
        v = (operation.succeeds, Slot.new operation.expirePeriod operation.thread) ∧
        operation.validityRangeContains config.operationValidityPeriod blockSlot.period = true ∧
        operation.thread = blockSlot.thread ∧
        context.speculativeExecutedOps.isOpExecuted x = false := by
  -- induction on the block's operations, from any context and remaining gas
  induction operations generalizing context gas with
  | nil => exact .inl h
  | cons operation rest ih =>
    rw [executeOperations] at h
    split at h
    · next context' gas' hstep =>
      obtain ⟨hrange, hthread, hfresh, rfl⟩ := executeOperation_eq_ok hstep
      rcases ih _ gas' h with hget | ⟨op, hop, hid, hv, hr, ht, hx⟩
      · -- the record of this operation, or one the loop started with
        simp only [ExecutionContext.insertExecutedOp, SpeculativeExecutedOps.insertExecutedOp,
          SortedMap.get?_insert] at hget
        split at hget
        · next hx =>
          cases hget
          subst hx
          exact .inr ⟨operation, List.mem_cons_self, rfl, rfl, hrange, hthread, hfresh⟩
        · exact .inl hget
      · exact .inr ⟨op, List.mem_cons_of_mem _ hop, hid, hv, hr, ht,
          SpeculativeExecutedOps.isOpExecuted_of_insertExecutedOp hx⟩
    · rcases ih context gas h with hget | ⟨op, hop, hrest⟩
      · exact .inl hget
      · exact .inr ⟨op, List.mem_cons_of_mem _ hop, hrest⟩

/-- The denunciation loop leaves the operation records as they are. -/
theorem speculativeExecutedOps_executeDenunciations (config : ExecutionConfig) (blockSlot : Slot)
    (denunciations : List DenunciationInfo) (context : ExecutionContext) :
    (executeDenunciations config blockSlot context denunciations).1.speculativeExecutedOps =
      context.speculativeExecutedOps := by
  induction denunciations generalizing context with
  | nil => rfl
  | cons denunciation rest ih =>
    rw [executeDenunciations]
    split
    · next context' hstep =>
      obtain ⟨-, -, rfl⟩ := executeDenunciation_eq_ok hstep
      exact ih _
    · exact ih context

namespace SpeculativeExecutedDenunciations

/-- A denunciation counts as not executed exactly when none of the three
records holds it. -/
theorem isDenunciationExecuted_eq_false_iff (self : SpeculativeExecutedDenunciations)
    (deIdx : DenunciationIndex) :
    self.isDenunciationExecuted deIdx = false ↔
      deIdx ∉ self.executedDenunciations ∧
        (∀ o ∈ self.activeHistory.outputs,
          deIdx ∉ o.stateChanges.executedDenunciationsChanges) ∧
        self.finalState.contains deIdx = false := by
  constructor
  · intro h
    have hnot := fun hrec =>
      Bool.false_ne_true (h.symm.trans (self.isDenunciationExecuted_of_recorded deIdx hrec))
    exact ⟨fun hc => hnot (.inl hc), fun o ho hc => hnot (.inr (.inl ⟨o, ho, hc⟩)),
      Bool.eq_false_iff.mpr fun hc => hnot (.inr (.inr hc))⟩
  · rintro ⟨hchanges, hhistory, hfinal⟩
    have hfetch : self.activeHistory.fetchExecutedDenunciation deIdx ≠ .present () := by
      rw [Ne, ActiveHistory.fetchExecutedDenunciation_eq_present_iff]
      rintro ⟨o, ho, hc⟩
      exact hhistory o ho hc
    unfold isDenunciationExecuted
    rw [if_neg hchanges]
    split
    · next u hu =>
      exact absurd hu hfetch
    · exact hfinal

/-- Recording a denunciation only adds to what counts as executed. -/
theorem isDenunciationExecuted_of_insertExecutedDenunciation
    {self : SpeculativeExecutedDenunciations} {deIdx q : DenunciationIndex}
    (h : (self.insertExecutedDenunciation deIdx).isDenunciationExecuted q = false) :
    self.isDenunciationExecuted q = false := by
  rw [isDenunciationExecuted_eq_false_iff] at h ⊢
  obtain ⟨hchanges, hhistory, hfinal⟩ := h
  exact ⟨fun hq => hchanges (List.mem_insert_of_mem hq), hhistory, hfinal⟩

end SpeculativeExecutedDenunciations

/-- The records of the denunciation loop: a new record is the index of a
denunciation of the block, not expired at the block's slot and not executed
when the loop started. -/
theorem executeDenunciations_recorded (config : ExecutionConfig) (blockSlot : Slot)
    (denunciations : List DenunciationInfo) (context : ExecutionContext)
    {deIdx : DenunciationIndex}
    (h : deIdx ∈ (executeDenunciations config blockSlot context
      denunciations).1.speculativeExecutedDenunciations.executedDenunciations) :
    deIdx ∈ context.speculativeExecutedDenunciations.executedDenunciations ∨
      ∃ denunciation ∈ denunciations, denunciation.index = deIdx ∧
        Denunciation.isExpired deIdx.getSlot.period blockSlot.period
          config.denunciationExpirePeriods = false ∧
        context.speculativeExecutedDenunciations.isDenunciationExecuted deIdx = false := by
  induction denunciations generalizing context with
  | nil => exact .inl h
  | cons denunciation rest ih =>
    rw [executeDenunciations] at h
    split at h
    · next context' hstep =>
      obtain ⟨hexpired, hfresh, rfl⟩ := executeDenunciation_eq_ok hstep
      rcases ih _ h with hmem | ⟨den, hden, hid, hexp, hx⟩
      · -- the index of this denunciation, or one the loop started with
        simp only [ExecutionContext.insertExecutedDenunciation,
          SpeculativeExecutedDenunciations.insertExecutedDenunciation, List.mem_insert_iff] at hmem
        rcases hmem with rfl | hmem
        · exact .inr ⟨denunciation, List.mem_cons_self, rfl, hexpired, hfresh⟩
        · exact .inl hmem
      · exact .inr ⟨den, List.mem_cons_of_mem _ hden, hid, hexp,
          SpeculativeExecutedDenunciations.isDenunciationExecuted_of_insertExecutedDenunciation hx⟩
    · rcases ih context h with hmem | ⟨den, hden, hrest⟩
      · exact .inl hmem
      · exact .inr ⟨den, List.mem_cons_of_mem _ hden, hrest⟩

/-- The operation loop leaves the denunciation records as they are. -/
theorem speculativeExecutedDenunciations_executeOperations (config : ExecutionConfig)
    (blockSlot : Slot) (operations : List OperationInfo) (context : ExecutionContext)
    (gas : UInt64) :
    (executeOperations config blockSlot context gas operations).1.speculativeExecutedDenunciations =
      context.speculativeExecutedDenunciations := by
  induction operations generalizing context gas with
  | nil => rfl
  | cons operation rest ih =>
    rw [executeOperations]
    split
    · next context' gas' hstep =>
      obtain ⟨-, -, -, rfl⟩ := executeOperation_eq_ok hstep
      exact ih _ _
    · exact ih context gas

/-- The part of `ExecutionState` that slot execution and finalisation read and
write for replay protection. -/
structure ExecutionState where
  config : ExecutionConfig
  /-- `config.thread_count` -/
  threadCount : UInt8
  finalCursor : Slot
  activeCursor : Slot
  activeHistory : ActiveHistory
  /-- `final_state.executed_ops` -/
  executedOps : ExecutedOps
  /-- `final_state.executed_denunciations` -/
  executedDenunciations : ExecutedDenunciations

namespace ExecutionState

/-- `ExecutionContext::active_slot`, for the replay records: the final records
and the active history, and no change yet. -/
def activeSlotContext (self : ExecutionState) : ExecutionContext where
  speculativeExecutedOps := ⟨self.executedOps, self.activeHistory, ∅⟩
  speculativeExecutedDenunciations := ⟨self.executedDenunciations, self.activeHistory, []⟩

/-- `ExecutionState::execute_slot`, for the replay records: the operations of
the block, then its denunciations; a slot without a block changes none. -/
def executeSlot (self : ExecutionState) (slot : Slot) : Option BlockExecution → ExecutionOutput
  | none => ⟨slot, {}⟩
  | some block =>
    let context := (executeOperations self.config slot self.activeSlotContext
      self.config.maxGasPerBlock block.operations).1
    let context := (executeDenunciations self.config slot context block.denunciations).1
    ⟨slot, { executedOpsChanges := context.speculativeExecutedOps.executedOps
             executedDenunciationsChanges :=
               context.speculativeExecutedDenunciations.executedDenunciations }⟩

/-- `ExecutionState::apply_active_execution_output`. -/
def applyActiveExecutionOutput (self : ExecutionState) (execOut : ExecutionOutput) :
    Except String ExecutionState :=
  if self.activeCursor ≥ execOut.slot then
    .error "attempting to apply an active execution output at or before the current active_cursor"
  else if execOut.slot ≤ self.finalCursor then
    .error "attempting to apply an active execution output at or before the current final_cursor"
  else
    .ok { self with
      activeCursor := execOut.slot
      activeHistory := ⟨self.activeHistory.outputs ++ [execOut]⟩ }

/-- `ExecutionState::apply_final_execution_output`, with the replay records of
`FinalState::finalize`, which panics unless the slot follows the last final
one (the change id of the database). -/
def applyFinalExecutionOutput (self : ExecutionState) (execOut : ExecutionOutput) :
    Except String ExecutionState :=
  if self.finalCursor ≥ execOut.slot then
    .error "attempting to apply a final execution output at or before the current final_cursor"
  else
    match self.finalCursor.getNextSlot self.threadCount with
    | .error e => .error ("called Result::unwrap() on an Err value: " ++ e.debug)
    | .ok nextSlot =>
      if execOut.slot ≠ nextSlot then
        .error ("attempting to apply execution state changes at slot " ++ execOut.slot.display ++
          " while the current slot is " ++ self.finalCursor.display)
      else
        .ok { self with
          executedOps := self.executedOps.applyChangesToBatch
            execOut.stateChanges.executedOpsChanges execOut.slot
          executedDenunciations := self.executedDenunciations.applyChangesToBatch
            execOut.stateChanges.executedDenunciationsChanges execOut.slot
          finalCursor := execOut.slot
          -- the active cursor follows the final one when it was behind
          activeCursor := if self.activeCursor < execOut.slot then execOut.slot
            else self.activeCursor }

/-- `ExecutionState::execute_candidate_slot`: a slot executed already first
truncates the history from itself. -/
def executeCandidateSlot (self : ExecutionState) (slot : Slot) (block : Option BlockExecution) :
    Except String ExecutionState :=
  if slot ≤ self.finalCursor then
    .error ("could not execute candidate slot " ++ slot.display ++ " because final_cursor is at " ++
      self.finalCursor.display)
  else if self.activeCursor ≥ slot then
    match slot.getPrevSlot self.threadCount with
    | .error e => .error ("overflow when iterating on slots: " ++ e.debug)
    | .ok prevSlot =>
      let self := { self with
        activeHistory := self.activeHistory.truncateFrom slot self.threadCount
        activeCursor := prevSlot }
      self.applyActiveExecutionOutput (self.executeSlot slot block)
  else self.applyActiveExecutionOutput (self.executeSlot slot block)

/-- The end of `execute_final_slot` when the history does not hold the slot's
output: the history is dropped and the slot executed on the final state. -/
def executeFinalSlotAgain (self : ExecutionState) (slot : Slot) (block : Option BlockExecution) :
    Except String (ExecutionState × Option ExecutionOutput) :=
  let self := { self with activeHistory := ⟨[]⟩, activeCursor := self.finalCursor }
  let execOut := self.executeSlot slot block
  (self.applyFinalExecutionOutput execOut).map (·, some execOut)

/-- `ExecutionState::execute_final_slot`, with the output it applies to the
final state (none when the slot is final already).  `sameBlock` says whether
the output at the front of the history executed the target block. -/
def executeFinalSlot (self : ExecutionState) (slot : Slot) (block : Option BlockExecution)
    (sameBlock : Bool) : Except String (ExecutionState × Option ExecutionOutput) :=
  if slot ≤ self.finalCursor then .ok (self, none)
  else
    -- `pop_front` of the history
    match self.activeHistory.outputs with
    | execOut :: rest =>
      if execOut.slot = slot ∧ sameBlock = true then
        ({ self with activeHistory := ⟨rest⟩ }.applyFinalExecutionOutput execOut).map
          (·, some execOut)
      else self.executeFinalSlotAgain slot block
    | [] => self.executeFinalSlotAgain slot block

/-! ### What one slot records -/

section Slot

/-- `(self.execute_slot(..)).slot`. -/
@[simp] theorem slot_executeSlot (self : ExecutionState) (slot : Slot) (block : Option BlockExecution) :
    (self.executeSlot slot block).slot = slot := by
  cases block <;> rfl

/-- An output applied to the active history is that of a slot after both
cursors, appended to the history. -/
theorem applyActiveExecutionOutput_eq_ok {self self' : ExecutionState} {execOut : ExecutionOutput}
    (h : self.applyActiveExecutionOutput execOut = .ok self') :
    self.activeCursor < execOut.slot ∧ self.finalCursor < execOut.slot ∧
      self' = { self with
        activeCursor := execOut.slot
        activeHistory := ⟨self.activeHistory.outputs ++ [execOut]⟩ } := by
  unfold applyActiveExecutionOutput at h
  split at h
  · cases h
  · next hactive =>
    split at h
    · cases h
    · next hfinal =>
      cases h
      exact ⟨not_le.mp hactive, not_le.mp hfinal, rfl⟩

/-- An output applied to the final state is that of the slot right after the
final cursor; its records are written and pruned to its slot. -/
theorem applyFinalExecutionOutput_eq_ok {self self' : ExecutionState} {execOut : ExecutionOutput}
    (h : self.applyFinalExecutionOutput execOut = .ok self') :
    self.finalCursor < execOut.slot ∧
      self.finalCursor.getNextSlot self.threadCount = .ok execOut.slot ∧
      self' = { self with
        executedOps := self.executedOps.applyChangesToBatch
          execOut.stateChanges.executedOpsChanges execOut.slot
        executedDenunciations := self.executedDenunciations.applyChangesToBatch
          execOut.stateChanges.executedDenunciationsChanges execOut.slot
        finalCursor := execOut.slot
        activeCursor := if self.activeCursor < execOut.slot then execOut.slot
          else self.activeCursor } := by
  unfold applyFinalExecutionOutput at h
  split at h
  · cases h
  · next hcursor =>
    split at h
    · cases h
    · next nextSlot hnext =>
      split at h
      · cases h
      · next hslot =>
        cases h
        rw [not_not.mp hslot]
        exact ⟨not_le.mp (not_not.mp hslot ▸ hcursor), hnext, rfl⟩

end Slot

/-! ### Replay protection over whole runs

An operation's id is the hash of its content, which holds its expiry period;
its thread is that of its creator.  So the id fixes the slot an operation is
valid until, `validUntil id`, and every block carries operations whose
`(expire_period, thread)` is that slot.  A denunciation's index holds its own
slot, and it can be executed while it is not expired.  Both records follow
the discipline of `Replay.Safe`: candidate slots only append outputs whose
operations and denunciations the final state and the history do not hold,
and the final state forgets a record only once it can no longer be executed.
So along every run nothing is executed twice. -/

section Replay

variable (validUntil : OperationId → Slot)

/-- The ids of the operations an output executed. -/
def executedOpIds (out : ExecutionOutput) : Finset OperationId :=
  out.stateChanges.executedOpsChanges.keys

/-- The indexes of the denunciations an output executed. -/
def executedDenunciationIds (out : ExecutionOutput) : Finset DenunciationIndex :=
  out.stateChanges.executedDenunciationsChanges.toFinset

theorem mem_executedOpIds {out : ExecutionOutput} {x : OperationId} :
    x ∈ executedOpIds out ↔ out.stateChanges.executedOpsChanges.contains x = true := by
  rw [executedOpIds, SortedMap.mem_keys]
  rfl

theorem exists_of_mem_executedOpIds {out : ExecutionOutput} {x : OperationId}
    (hx : x ∈ executedOpIds out) : ∃ v, out.stateChanges.executedOpsChanges.get? x = some v := by
  rw [mem_executedOpIds, SortedMap.contains, Option.isSome_iff_exists] at hx
  exact hx

/-- Every operation of the block is valid until the slot its id names. -/
def NamesOps (block : BlockExecution) : Prop :=
  ∀ operation ∈ block.operations,
    Slot.new operation.expirePeriod operation.thread = validUntil operation.id

/-- An operation can be executed at a slot up to the end of its validity. -/
def OpLive (x : OperationId) (slot : Slot) : Prop :=
  slot ≤ validUntil x

/-- An operation live at a slot is live at every earlier slot. -/
theorem opLive_mono (x : OperationId) (s t : Slot) (hst : s ≤ t) (ht : OpLive validUntil x t) :
    OpLive validUntil x s :=
  hst.trans ht

/-- A denunciation can be executed at a slot while it is not expired there. -/
def DenunciationLive (expirePeriods : UInt64) (deIdx : DenunciationIndex) (slot : Slot) : Prop :=
  Denunciation.isExpired deIdx.getSlot.period slot.period expirePeriods = false

/-- A denunciation live at a slot is live at every earlier slot. -/
theorem denunciationLive_mono (expirePeriods : UInt64) (deIdx : DenunciationIndex) (s t : Slot)
    (hst : s ≤ t) (ht : DenunciationLive expirePeriods deIdx t) :
    DenunciationLive expirePeriods deIdx s := by
  rw [DenunciationLive, Bool.eq_false_iff] at ht ⊢
  intro hs
  have hperiod : s.period.toNat ≤ t.period.toNat := by
    rcases Slot.le_iff.mp hst with hlt | ⟨heq, -⟩ <;> omega
  exact ht (Denunciation.isExpired_of_le hs le_rfl hperiod)

variable {validUntil}

/-- What a slot's output records of operations: operations valid until at
least the slot, which the final records and the active history did not hold. -/
theorem executeSlot_recorded (self : ExecutionState) (slot : Slot) {block : Option BlockExecution}
    (hnames : ∀ b ∈ block, NamesOps validUntil b) {x : OperationId} {v : Bool × Slot}
    (h : (self.executeSlot slot block).stateChanges.executedOpsChanges.get? x = some v) :
    v.2 = validUntil x ∧ slot ≤ validUntil x ∧ self.executedOps.contains x = false ∧
      ∀ o ∈ self.activeHistory.outputs, x ∉ executedOpIds o := by
  cases block with
  | none => cases h
  | some b =>
    simp only [executeSlot, speculativeExecutedOps_executeDenunciations] at h
    rcases executeOperations_recorded _ _ _ _ _ h with hget | ⟨op, hop, rfl, rfl, hrange, hthread, hfresh⟩
    · -- the slot starts from no change
      cases hget
    · obtain ⟨-, hhistory, hfinal⟩ := (SpeculativeExecutedOps.isOpExecuted_eq_false_iff _ _).mp hfresh
      have hvalid : Slot.new op.expirePeriod op.thread = validUntil op.id := hnames b rfl op hop
      refine ⟨hvalid, hvalid ▸ op.le_new_of_validityRangeContains hrange hthread, hfinal,
        fun o ho hx => ?_⟩
      rw [mem_executedOpIds, hhistory o ho] at hx
      cases hx

/-- What a slot's output records of denunciations: denunciations not expired
at the slot, which the final records and the active history did not hold. -/
theorem executeSlot_denunciationRecorded (self : ExecutionState) (slot : Slot)
    (block : Option BlockExecution) {deIdx : DenunciationIndex}
    (h : deIdx ∈ executedDenunciationIds (self.executeSlot slot block)) :
    DenunciationLive self.config.denunciationExpirePeriods deIdx slot ∧
      self.executedDenunciations.contains deIdx = false ∧
      ∀ o ∈ self.activeHistory.outputs, deIdx ∉ executedDenunciationIds o := by
  rw [executedDenunciationIds, List.mem_toFinset] at h
  cases block with
  | none => cases h
  | some b =>
    simp only [executeSlot] at h
    rcases executeDenunciations_recorded _ _ _ _ h with hmem | ⟨den, -, -, hlive, hfresh⟩
    · -- the operations do not touch the denunciation records, which start empty
      rw [speculativeExecutedDenunciations_executeOperations] at hmem
      cases hmem
    · rw [speculativeExecutedDenunciations_executeOperations] at hfresh
      obtain ⟨-, hhistory, hfinal⟩ :=
        (SpeculativeExecutedDenunciations.isDenunciationExecuted_eq_false_iff _ _).mp hfresh
      refine ⟨hlive, hfinal, fun o ho hdo => hhistory o ho ?_⟩
      rw [executedDenunciationIds, List.mem_toFinset] at hdo
      exact hdo

variable (validUntil)

/-- The invariant of a run, with `log` the outputs applied to the final
state so far, oldest first: the operation and the denunciation records each
follow `Replay.Safe` along the chain `log ++ history`, every operation record
carries its validity end, and the final records are indexed and pruned as
finalisation needs. -/
structure ReplaySafe (state : ExecutionState) (log : List ExecutionOutput) : Prop where
  ops : Replay.Safe executedOpIds ExecutionOutput.slot (OpLive validUntil) log
    state.activeHistory.outputs (fun x => state.executedOps.contains x = true) state.finalCursor
  validUntil_recorded : ∀ out ∈ log ++ state.activeHistory.outputs, ∀ x v,
    out.stateChanges.executedOpsChanges.get? x = some v → v.2 = validUntil x
  opsIndexed : state.executedOps.IndexedBy fun x s => s = validUntil x
  denunciations : Replay.Safe executedDenunciationIds ExecutionOutput.slot
    (DenunciationLive state.config.denunciationExpirePeriods) log state.activeHistory.outputs
    (fun deIdx => state.executedDenunciations.contains deIdx = true) state.finalCursor
  denunciationsIndexed : state.executedDenunciations.Indexed
  /-- the final records keep denunciations at least as long as execution accepts them -/
  expirePeriods_le : state.config.denunciationExpirePeriods.toNat ≤
    state.executedDenunciations.effectiveExpiryPeriods.toNat

namespace ReplaySafe

variable {validUntil} {state state' : ExecutionState} {log : List ExecutionOutput}

/-- Replacing the history by a part of it and moving the active cursor (a
truncation, a clearing) keeps the invariant. -/
theorem of_sublist (h : ReplaySafe validUntil state log) (history : ActiveHistory)
    (activeCursor : Slot) (hsub : List.Sublist history.outputs state.activeHistory.outputs) :
    ReplaySafe validUntil { state with activeHistory := history, activeCursor := activeCursor } log where
  ops := h.ops.of_sublist hsub
  validUntil_recorded out hout := h.validUntil_recorded out ((hsub.append_left log).subset hout)
  opsIndexed := h.opsIndexed
  denunciations := h.denunciations.of_sublist hsub
  denunciationsIndexed := h.denunciationsIndexed
  expirePeriods_le := h.expirePeriods_le

/-- Appending the output of a slot after the final cursor, and moving the
active cursor, keeps the invariant. -/
theorem pushSlot {slot : Slot} {block : Option BlockExecution} (h : ReplaySafe validUntil state log)
    (hnames : ∀ b ∈ block, NamesOps validUntil b) (hslot : state.finalCursor < slot)
    (activeCursor : Slot) :
    ReplaySafe validUntil { state with
      activeCursor := activeCursor
      activeHistory := ⟨state.activeHistory.outputs ++ [state.executeSlot slot block]⟩ } log where
  ops := by
    refine h.ops.push (opLive_mono validUntil) (fun x hx => ?_) (fun x hx => ?_)
      (by rw [slot_executeSlot]; exact hslot.le)
    · obtain ⟨v, hv⟩ := exists_of_mem_executedOpIds hx
      rw [slot_executeSlot]
      exact (executeSlot_recorded state slot hnames hv).2.1
    · obtain ⟨v, hv⟩ := exists_of_mem_executedOpIds hx
      obtain ⟨-, -, hfinal, hhistory⟩ := executeSlot_recorded state slot hnames hv
      exact ⟨by rw [hfinal]; exact Bool.false_ne_true, hhistory⟩
  validUntil_recorded out hout := by
    rw [← List.append_assoc, List.mem_append, List.mem_singleton] at hout
    rcases hout with hout | rfl
    · exact h.validUntil_recorded out hout
    · exact fun x v hv => (executeSlot_recorded state slot hnames hv).1
  opsIndexed := h.opsIndexed
  denunciations := by
    refine h.denunciations.push (denunciationLive_mono _) (fun deIdx hd => ?_) (fun deIdx hd => ?_)
      (by rw [slot_executeSlot]; exact hslot.le)
    · rw [slot_executeSlot]
      exact (executeSlot_denunciationRecorded state slot block hd).1
    · obtain ⟨-, hfinal, hhistory⟩ := executeSlot_denunciationRecorded state slot block hd
      exact ⟨by rw [hfinal]; exact Bool.false_ne_true, hhistory⟩
  denunciationsIndexed := h.denunciationsIndexed
  expirePeriods_le := h.expirePeriods_le

/-- Applying the front output of the history to the final state moves it
from the history to the log, and keeps the invariant. -/
theorem finalize {out : ExecutionOutput} {rest : List ExecutionOutput}
    (h : ReplaySafe validUntil state log) (hhistory : state.activeHistory.outputs = out :: rest)
    (happly : { state with activeHistory := ⟨rest⟩ }.applyFinalExecutionOutput out = .ok state') :
    ReplaySafe validUntil state' (log ++ [out]) := by
  obtain ⟨hlt, -, rfl⟩ := applyFinalExecutionOutput_eq_ok happly
  have hchain : log ++ [out] ++ rest = log ++ state.activeHistory.outputs := by
    rw [hhistory, List.append_assoc, List.singleton_append]
  have hchanges : ∀ x v, out.stateChanges.executedOpsChanges.get? x = some v → v.2 = validUntil x :=
    h.validUntil_recorded out (by rw [hhistory]; exact List.mem_append_right _ List.mem_cons_self)
  have hops := h.ops
  have hdens := h.denunciations
  rw [hhistory] at hops hdens
  refine ⟨hops.finalize (opLive_mono validUntil) hlt.le fun x hx => ?_, ?_,
    h.opsIndexed.applyChangesToBatch hchanges out.slot,
    hdens.finalize (denunciationLive_mono _) hlt.le fun deIdx hd => ?_,
    h.denunciationsIndexed.applyChangesToBatch _ out.slot, ?_⟩
  · -- an operation record is kept, or pruned once its validity ended
    -- before the output's slot
    rcases ExecutedOps.contains_applyChangesToBatch h.opsIndexed hchanges out.slot
        (hx.imp id mem_executedOpIds.mp) with hc | ⟨s, hs, hlt'⟩
    · exact .inl hc
    · exact .inr (not_le.mpr (hs ▸ hlt'))
  · show ∀ o ∈ log ++ [out] ++ rest, _
    rw [hchain]
    exact h.validUntil_recorded
  · -- a denunciation record is kept, or pruned once expired with the extra
    -- periods, hence with the periods execution checks
    rcases ExecutedDenunciations.contains_applyChangesToBatch h.denunciationsIndexed _ out.slot
        (hd.imp id List.mem_toFinset.mp) with hc | hexp
    · exact .inl hc
    · refine .inr fun hlive => ?_
      rw [DenunciationLive, Denunciation.isExpired_of_le hexp h.expirePeriods_le le_rfl] at hlive
      cases hlive
  · show _ ≤ (state.executedDenunciations.applyChangesToBatch _ out.slot).effectiveExpiryPeriods.toNat
    rw [ExecutedDenunciations.effectiveExpiryPeriods_applyChangesToBatch]
    exact h.expirePeriods_le

/-- `execute_candidate_slot` keeps the invariant. -/
theorem executeCandidateSlot {slot : Slot} {block : Option BlockExecution}
    (h : ReplaySafe validUntil state log) (hnames : ∀ b ∈ block, NamesOps validUntil b)
    (hexec : state.executeCandidateSlot slot block = .ok state') : ReplaySafe validUntil state' log := by
  unfold ExecutionState.executeCandidateSlot at hexec
  split at hexec
  · cases hexec
  · next hfinal =>
    have hslot : state.finalCursor < slot := not_le.mp hfinal
    split at hexec
    · -- the slot was executed already: truncate the history from it first
      split at hexec
      · cases hexec
      · next prevSlot _ =>
        obtain ⟨-, -, rfl⟩ := applyActiveExecutionOutput_eq_ok hexec
        exact (h.of_sublist _ prevSlot (state.activeHistory.truncateFrom_sublist _ _)).pushSlot
          hnames hslot _
    · obtain ⟨-, -, rfl⟩ := applyActiveExecutionOutput_eq_ok hexec
      exact h.pushSlot hnames hslot _

/-- The re-execution of a final slot on the final state keeps the invariant:
its output goes through the history, emptied, and is finalised at once. -/
theorem executeFinalSlotAgain {slot : Slot} {block : Option BlockExecution}
    {out : Option ExecutionOutput} (h : ReplaySafe validUntil state log)
    (hnames : ∀ b ∈ block, NamesOps validUntil b)
    (hexec : state.executeFinalSlotAgain slot block = .ok (state', out)) :
    ReplaySafe validUntil state' (log ++ out.toList) := by
  unfold ExecutionState.executeFinalSlotAgain at hexec
  simp only at hexec
  have hempty := h.of_sublist ⟨[]⟩ state.finalCursor (List.nil_sublist _)
  cases happly : ({ state with activeHistory := ⟨[]⟩, activeCursor := state.finalCursor } :
      ExecutionState).applyFinalExecutionOutput
      (({ state with activeHistory := ⟨[]⟩, activeCursor := state.finalCursor } :
        ExecutionState).executeSlot slot block) with
  | error e =>
    rw [happly] at hexec
    cases hexec
  | ok final =>
    rw [happly] at hexec
    cases hexec
    have hslot := (applyFinalExecutionOutput_eq_ok happly).1
    rw [slot_executeSlot] at hslot
    exact (hempty.pushSlot hnames hslot state.finalCursor).finalize rfl happly

/-- `execute_final_slot` keeps the invariant, with its applied output
appended to the log. -/
theorem executeFinalSlot {slot : Slot} {block : Option BlockExecution} {sameBlock : Bool}
    {out : Option ExecutionOutput} (h : ReplaySafe validUntil state log)
    (hnames : ∀ b ∈ block, NamesOps validUntil b)
    (hexec : state.executeFinalSlot slot block sameBlock = .ok (state', out)) :
    ReplaySafe validUntil state' (log ++ out.toList) := by
  unfold ExecutionState.executeFinalSlot at hexec
  split at hexec
  · -- already final: nothing changes
    cases hexec
    rw [Option.toList_none, List.append_nil]
    exact h
  · split at hexec
    · next execOut rest hhistory =>
      split at hexec
      · -- the front output is the slot's: it is applied as it is
        cases happly : ({ state with activeHistory := ⟨rest⟩ } : ExecutionState).applyFinalExecutionOutput
            execOut with
        | error e =>
          rw [happly] at hexec
          cases hexec
        | ok final =>
          rw [happly] at hexec
          cases hexec
          exact h.finalize hhistory happly
      · exact h.executeFinalSlotAgain hnames hexec
    · exact h.executeFinalSlotAgain hnames hexec

end ReplaySafe

/-- The runs of the execution state from a start with an empty active
history, well-indexed final records, and the final denunciation records
configured with the expiry execution checks: candidate slots executed and
final slots applied, in any order, with any blocks whose operations have
their ids' validity and whatever the check of the cached output's block
answers.  `log` collects the outputs applied to the final state, oldest
first. -/
inductive Run : ExecutionState → List ExecutionOutput → Prop
  | init {state : ExecutionState} (hhistory : state.activeHistory.outputs = [])
      (hopsIndexed : state.executedOps.IndexedBy fun x s => s = validUntil x)
      (hdenunciationsIndexed : state.executedDenunciations.Indexed)
      (hexpirePeriods : state.executedDenunciations.config.denunciationExpirePeriods =
        state.config.denunciationExpirePeriods) : Run state []
  | candidate {state state' : ExecutionState} {log : List ExecutionOutput} (slot : Slot)
      (block : Option BlockExecution) (hrun : Run state log)
      (hnames : ∀ b ∈ block, NamesOps validUntil b)
      (hexec : state.executeCandidateSlot slot block = .ok state') : Run state' log
  | final {state state' : ExecutionState} {log : List ExecutionOutput} (slot : Slot)
      (block : Option BlockExecution) (sameBlock : Bool) {out : Option ExecutionOutput}
      (hrun : Run state log) (hnames : ∀ b ∈ block, NamesOps validUntil b)
      (hexec : state.executeFinalSlot slot block sameBlock = .ok (state', out)) :
      Run state' (log ++ out.toList)

variable {validUntil}

theorem Run.replaySafe {state : ExecutionState} {log : List ExecutionOutput}
    (h : Run validUntil state log) : ReplaySafe validUntil state log := by
  induction h with
  | @init start hhistory hopsIndexed hdenunciationsIndexed hexpirePeriods =>
    refine ⟨?_, ?_, hopsIndexed, ?_, hdenunciationsIndexed, ?_⟩
    · rw [hhistory]
      exact Replay.safe_nil _ _
    · rw [hhistory]
      exact fun _ hout => absurd hout List.not_mem_nil
    · rw [hhistory]
      exact Replay.safe_nil _ _
    · -- the extra periods only lengthen the expiry
      rw [ExecutedDenunciations.effectiveExpiryPeriods, toNat_saturatingAdd_eq_min, hexpirePeriods]
      have hbound := UInt64.toNat_lt start.config.denunciationExpirePeriods
      omega
  | candidate slot block _ hnames hexec ih => exact ih.executeCandidateSlot hnames hexec
  | final slot block sameBlock _ hnames hexec ih => exact ih.executeFinalSlot hnames hexec

/-- **No operation is executed twice along the chain.**  Along any run, the
outputs applied to the final state, followed by the active history, execute
pairwise disjoint sets of operations, each at a slot no later than the end of
its validity. -/
theorem Run.executedOnce {state : ExecutionState} {log : List ExecutionOutput}
    (h : Run validUntil state log) :
    ((log ++ state.activeHistory.outputs).map executedOpIds).Pairwise Disjoint ∧
      ∀ out ∈ log ++ state.activeHistory.outputs, ∀ x ∈ executedOpIds out,
        out.slot ≤ validUntil x := by
  have hops := h.replaySafe.ops
  exact ⟨hops.disjoint, hops.live_pos⟩

/-- **No denunciation is executed twice along the chain.**  Along any run, the
outputs applied to the final state, followed by the active history, execute
pairwise disjoint sets of denunciations, each at a slot where it is not
expired. -/
theorem Run.denunciationExecutedOnce {state : ExecutionState} {log : List ExecutionOutput}
    (h : Run validUntil state log) :
    ((log ++ state.activeHistory.outputs).map executedDenunciationIds).Pairwise Disjoint ∧
      ∀ out ∈ log ++ state.activeHistory.outputs, ∀ deIdx ∈ executedDenunciationIds out,
        Denunciation.isExpired deIdx.getSlot.period out.slot.period
          state.config.denunciationExpirePeriods = false := by
  have hdens := h.replaySafe.denunciations
  exact ⟨hdens.disjoint, hdens.live_pos⟩

/-- A start at the last slot of period 0 with two threads and no record. -/
def sampleState : ExecutionState where
  config := ⟨10, 10, 0, 1000⟩
  threadCount := 2
  finalCursor := Slot.new 0 1
  activeCursor := Slot.new 0 1
  activeHistory := ⟨[]⟩
  executedOps := ⟨⟨0⟩, ∅, ∅, ∅⟩
  executedDenunciations := ⟨⟨10, 0⟩, ∅, []⟩

/-- Every operation id of the samples is valid until slot `(5, 0)`. -/
def sampleValidUntil : OperationId → Slot := fun _ => Slot.new 5 0

/-- A block of one operation of thread 0 that expires at period 5, and one
denunciation of a block header of slot `(1, 0)`. -/
def sampleBlock : BlockExecution :=
  ⟨[⟨⟨⟨Vector.replicate 32 0⟩⟩, 5, 0, 10, none, true⟩], [⟨.blockHeader (Slot.new 1 0), true, true⟩]⟩

theorem namesOps_sampleBlock : ∀ b ∈ some sampleBlock, NamesOps sampleValidUntil b := by
  intro b hb operation hop
  cases Option.mem_def.mp hb
  rw [sampleBlock, List.mem_singleton] at hop
  subst hop
  rfl

/-- Slot `(1, 0)` executed as a candidate, then finalised from the history. -/
theorem run_sample : ∃ state₁ state₂ out,
    sampleState.executeCandidateSlot (Slot.new 1 0) (some sampleBlock) = .ok state₁ ∧
      state₁.executeFinalSlot (Slot.new 1 0) (some sampleBlock) true = .ok (state₂, out) ∧
      Run sampleValidUntil state₂ ([] ++ out.toList) := by
  have h₀ : Run sampleValidUntil sampleState [] :=
    .init rfl (fun s ids h => by cases h) (fun s des h => by cases h) rfl
  have h₁ := Run.candidate (Slot.new 1 0) (some sampleBlock) h₀ namesOps_sampleBlock rfl
  exact ⟨_, _, _, rfl, rfl, Run.final (Slot.new 1 0) (some sampleBlock) true h₁ namesOps_sampleBlock rfl⟩

theorem executedOnce_sample : ∃ state₁ state₂ out,
    sampleState.executeCandidateSlot (Slot.new 1 0) (some sampleBlock) = .ok state₁ ∧
      state₁.executeFinalSlot (Slot.new 1 0) (some sampleBlock) true = .ok (state₂, out) ∧
      ((([] ++ out.toList) ++ state₂.activeHistory.outputs).map executedOpIds).Pairwise Disjoint ∧
      ∀ o ∈ ([] ++ out.toList) ++ state₂.activeHistory.outputs, ∀ x ∈ executedOpIds o,
        o.slot ≤ sampleValidUntil x := by
  obtain ⟨state₁, state₂, out, h₁, h₂, hrun⟩ := run_sample
  exact ⟨state₁, state₂, out, h₁, h₂, Run.executedOnce hrun⟩

theorem denunciationExecutedOnce_sample : ∃ state₁ state₂ out,
    sampleState.executeCandidateSlot (Slot.new 1 0) (some sampleBlock) = .ok state₁ ∧
      state₁.executeFinalSlot (Slot.new 1 0) (some sampleBlock) true = .ok (state₂, out) ∧
      ((([] ++ out.toList) ++ state₂.activeHistory.outputs).map executedDenunciationIds).Pairwise
        Disjoint ∧
      ∀ o ∈ ([] ++ out.toList) ++ state₂.activeHistory.outputs, ∀ deIdx ∈ executedDenunciationIds o,
        Denunciation.isExpired deIdx.getSlot.period o.slot.period
          state₂.config.denunciationExpirePeriods = false := by
  obtain ⟨state₁, state₂, out, h₁, h₂, hrun⟩ := run_sample
  exact ⟨state₁, state₂, out, h₁, h₂, Run.denunciationExecutedOnce hrun⟩

end Replay

end ExecutionState

end Massa
