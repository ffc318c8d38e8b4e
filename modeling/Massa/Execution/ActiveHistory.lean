import Massa.AsyncPool.Changes
import Massa.ExecutedOps.Changes
import Massa.Ledger.Changes
import Massa.Lib.Layers
import Massa.Pos.DeferredCredits

/-!
# The active history (`massa-execution-worker/src/active_history.rs`)

The execution worker keeps the outputs of the slots it has executed but
that are not final yet, oldest first.  Reads of the speculative state search
them lazily, newest first: every `fetch_*` lookup visits the outputs in
reverse and stops at the first one that knows the answer, returning
`HistorySearchResult::NoInfo` when none does.

`searchNewestFirst` is that loop, shared by the lookups; the lookups differ
only in what they ask of one output.  `answer_searchNewestFirst` connects it
to the generic read through layers `Layers.firstAnswer`, so that results
about materialising the history apply to every lookup.  `fetch_message` is
the one lookup with an accumulator and has its own loop, `fetchMessageLoop`.
-/

namespace Massa

/-- `StateChanges` (`massa-final-state/src/state_changes.rs`), with the
parts that the modelled reads and writes use. -/
structure StateChanges where
  ledgerChanges : LedgerChanges := ∅
  asyncPoolChanges : AsyncPoolChanges := ∅
  executedOpsChanges : ExecutedOpsChanges := ∅
  executedDenunciationsChanges : ExecutedDenunciationsChanges := []
  posChanges : PoSChanges := {}

/-- `ExecutionOutput`: the slot and the state changes its execution made. -/
structure ExecutionOutput where
  slot : Slot
  stateChanges : StateChanges

/-- `ActiveHistory(VecDeque<ExecutionOutput>)`, oldest output first. -/
structure ActiveHistory where
  outputs : List ExecutionOutput

/-- `HistorySearchResult<T>`. -/
inductive HistorySearchResult (T : Type) where
  | present (v : T)
  | absent
  | noInfo
  deriving DecidableEq, Repr

namespace HistorySearchResult

variable {T : Type}

/-- What a search result says about an optional value: `some` of the value
(`None` when absent), or `none` when the history has no information. -/
def answer : HistorySearchResult T → Option (Option T)
  | present v => some (some v)
  | absent => some none
  | noInfo => none

/-- The match each speculative read makes on a history result: the value
if present, the final state's read if there is no information. -/
def orElse (r : HistorySearchResult T) (final : Option T) : Option T :=
  match r with
  | present v => some v
  | noInfo => final
  | absent => none

theorem orElse_eq_answer (r : HistorySearchResult T) (final : Option T) :
    r.orElse final = r.answer.getD final := by
  cases r <;> rfl

end HistorySearchResult

open HistorySearchResult

/-- The loop shared by the `fetch_*` lookups: visit outputs (given newest
first) and return the first answer that is not `NoInfo`. -/
def searchNewestFirst {T : Type} (look : ExecutionOutput → HistorySearchResult T) :
    List ExecutionOutput → HistorySearchResult T
  | [] => noInfo
  | o :: os =>
    match look o with
    | noInfo => searchNewestFirst look os
    | r => r

/-- The search is the read through layers whose answers are those of
`look`, also after post-processing the value with any `g`. -/
theorem answer_searchNewestFirst {T ρ : Type} (look : ExecutionOutput → HistorySearchResult T)
    (g : Option T → ρ) (os : List ExecutionOutput) (base : ρ) :
    ((searchNewestFirst look os).answer.map g).getD base =
      Layers.firstAnswer (fun o => (look o).answer.map g) os base := by
  induction os with
  | nil => rfl
  | cons o os ih =>
    rw [Layers.firstAnswer_cons, ← ih, searchNewestFirst]
    cases look o <;> rfl

/-- A lookup that only reports presence finds it exactly when one of the
outputs reports it. -/
theorem searchNewestFirst_eq_present_iff {look : ExecutionOutput → HistorySearchResult Unit}
    (hlook : ∀ o, look o = present () ∨ look o = noInfo) (os : List ExecutionOutput) :
    searchNewestFirst look os = present () ↔ ∃ o ∈ os, look o = present () := by
  induction os with
  | nil => simp [searchNewestFirst]
  | cons o os ih =>
    rw [searchNewestFirst]
    rcases hlook o with h | h
    · rw [h]
      simp [h]
    · rw [h]
      simp [ih, h]

namespace ActiveHistory

/-- The outputs newest first, as `self.0.iter().rev()` visits them. -/
def search {T : Type} (self : ActiveHistory) (look : ExecutionOutput → HistorySearchResult T) :
    HistorySearchResult T :=
  searchNewestFirst look self.outputs.reverse

/-- `ActiveHistory::fetch_executed_op`. -/
def fetchExecutedOp (self : ActiveHistory) (opId : OperationId) : HistorySearchResult Unit :=
  self.search fun historyElement =>
    if historyElement.stateChanges.executedOpsChanges.contains opId then present () else noInfo

/-- `ActiveHistory::fetch_executed_denunciation`. -/
def fetchExecutedDenunciation (self : ActiveHistory) (deIdx : DenunciationIndex) :
    HistorySearchResult Unit :=
  self.search fun historyElement =>
    if deIdx ∈ historyElement.stateChanges.executedDenunciationsChanges then present ()
    else noInfo

/-- The history knows an operation exactly when one of its outputs executed it. -/
theorem fetchExecutedOp_eq_present_iff (self : ActiveHistory) (opId : OperationId) :
    self.fetchExecutedOp opId = present () ↔
      ∃ o ∈ self.outputs, o.stateChanges.executedOpsChanges.contains opId = true := by
  rw [fetchExecutedOp, search, searchNewestFirst_eq_present_iff]
  · simp
  · intro o
    by_cases h : o.stateChanges.executedOpsChanges.contains opId <;> simp [h]

/-- The history knows a denunciation exactly when one of its outputs executed it. -/
theorem fetchExecutedDenunciation_eq_present_iff (self : ActiveHistory)
    (deIdx : DenunciationIndex) :
    self.fetchExecutedDenunciation deIdx = present () ↔
      ∃ o ∈ self.outputs, deIdx ∈ o.stateChanges.executedDenunciationsChanges := by
  rw [fetchExecutedDenunciation, search, searchNewestFirst_eq_present_iff]
  · simp
  · intro o
    by_cases h : deIdx ∈ o.stateChanges.executedDenunciationsChanges <;> simp [h]

/-- `ActiveHistory::fetch_balance`. -/
def fetchBalance (self : ActiveHistory) (addr : Address) : HistorySearchResult Amount :=
  self.search fun output =>
    match output.stateChanges.ledgerChanges.get? addr with
    | some (.set v) => present v.balance
    | some (.update ⟨.set v, _, _⟩) => present v
    | some .delete => absent
    | _ => noInfo

/-- `ActiveHistory::fetch_bytecode`. -/
def fetchBytecode (self : ActiveHistory) (addr : Address) : HistorySearchResult Bytecode :=
  self.search fun output =>
    match output.stateChanges.ledgerChanges.get? addr with
    | some (.set v) => present v.bytecode
    | some (.update ⟨_, .set v, _⟩) => present v
    | some .delete => absent
    | _ => noInfo

/-- `ActiveHistory::fetch_active_history_data_entry`. -/
def fetchActiveHistoryDataEntry (self : ActiveHistory) (addr : Address) (key : Bytes) :
    HistorySearchResult Bytes :=
  self.search fun output =>
    match output.stateChanges.ledgerChanges.get? addr with
    | some (.set v) =>
      match v.datastore.get? key with
      | some value => present value
      | none => absent
    | some (.update u) =>
      match u.datastore.get? key with
      | some (.set value) => present value
      | some .delete => absent
      | none => noInfo
    | some .delete => absent
    | none => noInfo

/-- The loop of `ActiveHistory::fetch_message`, over the outputs newest
first: updates met on the way are accumulated into `currentUpdates`, and
the first `Set` gets the accumulated updates applied. -/
def fetchMessageLoop (messageId : AsyncMessageId) :
    List ExecutionOutput → AsyncMessageUpdate → HistorySearchResult MessageChange
  | [], currentUpdates => present (.update currentUpdates)
  | historyElement :: rest, currentUpdates =>
    match historyElement.stateChanges.asyncPoolChanges.get? messageId with
    | some (.set msg) => present (.set (msg.apply currentUpdates))
    -- `current_updates.apply(msg_update.clone())`: the older update is
    -- applied on top of the newer ones
    | some (.update msgUpdate) => fetchMessageLoop messageId rest (currentUpdates.apply msgUpdate)
    | some .delete => absent
    | none => fetchMessageLoop messageId rest currentUpdates

/-- `ActiveHistory::fetch_message`. -/
def fetchMessage (self : ActiveHistory) (messageId : AsyncMessageId)
    (currentUpdates : AsyncMessageUpdate) : HistorySearchResult MessageChange :=
  fetchMessageLoop messageId self.outputs.reverse currentUpdates

/-- `ActiveHistory::fetch_roll_count`: the newest roll change of `addr`. -/
def fetchRollCount (self : ActiveHistory) (addr : Address) : Option UInt64 :=
  self.outputs.reverse.findSome? fun output =>
    output.stateChanges.posChanges.rollChanges.get? addr

/-- `ActiveHistory::get_all_deferred_credits_until`: the credits of every
output up to `slot` included, extended oldest first.  `get_slot_range(..=slot)`
is `BTreeMap::range`, which may panic in general. -/
def getAllDeferredCreditsUntil (self : ActiveHistory) (slot : Slot) :
    Except String DeferredCredits :=
  self.outputs.foldlM (fun acc e => do
    let credits ← e.stateChanges.posChanges.deferredCredits.getSlotRange .unbounded (.included slot)
    pure (acc.extend credits)) DeferredCredits.new

/-- `ActiveHistory::get_adress_deferred_credit_for`: the newest credit of
`addr` at `slot`. -/
def getAdressDeferredCreditFor (self : ActiveHistory) (addr : Address) (slot : Slot) :
    Option Amount :=
  self.outputs.reverse.findSome? fun histItem =>
    histItem.stateChanges.posChanges.deferredCredits.getAddressCreditsForSlot addr slot

/-- The history's credits up to `slot` are, for each slot up to it and each
address, the newest credit among the outputs. -/
theorem getAllDeferredCreditsUntil_eq (self : ActiveHistory) (slot : Slot) :
    ∃ credits, self.getAllDeferredCreditsUntil slot = .ok credits ∧
      ∀ addr s, credits.getAddressCreditsForSlot addr s =
        if s ≤ slot then self.getAdressDeferredCreditFor addr s else none := by
  -- `..=slot` has no start, so every `get_slot_range` succeeds
  have hrange : ∀ e : ExecutionOutput,
      e.stateChanges.posChanges.deferredCredits.getSlotRange .unbounded (.included slot) =
        .ok ⟨e.stateChanges.posChanges.deferredCredits.credits.filter
          fun k _ => Bound.contains .unbounded (.included slot) k⟩ :=
    fun e => DeferredCredits.getSlotRange_of_rangeValid _ rfl
  refine ⟨_, List.foldlM_eq_ok_of_forall (fun acc e _ => by rw [hrange e]; rfl) _,
    fun addr s => ?_⟩
  rw [DeferredCredits.get_foldl_extend, DeferredCredits.get_new, Option.or_none,
    getAdressDeferredCreditFor]
  have hread : ∀ e : ExecutionOutput,
      (⟨e.stateChanges.posChanges.deferredCredits.credits.filter
          fun k _ => Bound.contains .unbounded (.included slot) k⟩ :
        DeferredCredits).getAddressCreditsForSlot addr s =
      if s ≤ slot then e.stateChanges.posChanges.deferredCredits.getAddressCreditsForSlot addr s
      else none := by
    intro e
    rw [DeferredCredits.get_getSlotRange (hrange e)]
    simp [Bound.contains, Bound.startContains, Bound.endContains]
  simp only [hread]
  by_cases hs : s ≤ slot <;> simp [hs]

end ActiveHistory

end Massa
