import Massa.AsyncPool.Pool
import Massa.Execution.ActiveHistory

/-!
# The speculative asynchronous pool (`massa-execution-worker/src/speculative_async_pool.rs`)

The execution worker sees the asynchronous pool through three layers: the
final pool, the changes of the active history, and its own `pool_changes`.
Beside them it keeps `message_infos`, the summaries of every message of the
pool view, from which it chooses the messages to execute at a slot and those
to drop when a slot settles.  `fetch_msgs` reads the chosen messages through
the three layers, newest first, and records their deletion.

The abstract meaning of the layers is `SpeculativeAsyncPool.view`: the final
message with every later change applied oldest first.

Main results:
* `fetchMessageLoop_of_updates` — `fetch_message` composes the updates of
  the history newest first, so that an older `Set` of a field overrides a
  newer one; `fetchMsgs_older_update_wins` is a pool where the message it
  returns differs from the view;
* `fetchMsgs_of_absent` — an id that no layer holds is not returned;
* `settleSlot_loses_expired_new_message` — a message emitted in the slot it
  expires in leaves the pool view, and `settle_slot` does not return it for
  reimbursement.
-/

namespace Massa

/-- The final asynchronous pool as the speculative pool reads it: its
configuration, the messages `fetch_messages` reads from disk, and its
`message_info_cache`, which holds the summaries of those messages. -/
structure FinalAsyncPool where
  config : AsyncPoolConfig
  messages : SortedMap AsyncMessageId AsyncMessage
  messageInfoCache : SortedMap AsyncMessageId AsyncMessageInfo
  cache_eq : ∀ id, messageInfoCache.get? id = (messages.get? id).map AsyncMessageInfo.ofMessage

/-- `AsyncPool::fetch_messages`: each wanted id with its message, if any. -/
def FinalAsyncPool.fetchMessages (self : FinalAsyncPool) (messageIds : List AsyncMessageId) :
    List (AsyncMessageId × Option AsyncMessage) :=
  messageIds.map fun id => (id, self.messages.get? id)

/-- `is_triggered`: the ledger changes of the slot write what the trigger
watches. -/
def isTriggered (filter : AsyncMessageTrigger) (ledgerChanges : LedgerChanges) : Bool :=
  ledgerChanges.hasWrites filter.address filter.datastoreKey

/-- `SpeculativeAsyncPool`. -/
structure SpeculativeAsyncPool where
  finalState : FinalAsyncPool
  activeHistory : ActiveHistory
  poolChanges : AsyncPoolChanges
  messageInfos : SortedMap AsyncMessageId AsyncMessageInfo

namespace SpeculativeAsyncPool

/-- The summaries after one change of the history, as the loop of
`SpeculativeAsyncPool::new` applies it. -/
def applyInfoChange (infos : SortedMap AsyncMessageId AsyncMessageInfo)
    (change : AsyncMessageId × MessageChange) : SortedMap AsyncMessageId AsyncMessageInfo :=
  match change with
  | (id, .set message) => infos.insert id (AsyncMessageInfo.ofMessage message)
  | (id, .update messageUpdate) =>
    match infos.get? id with
    | some info => infos.insert id (info.apply messageUpdate)
    | none => infos
  | (id, .delete) => infos.erase id

/-- `SpeculativeAsyncPool::new`: the summaries of the final pool, with the
changes of the history applied oldest first. -/
def new (finalState : FinalAsyncPool) (activeHistory : ActiveHistory) : SpeculativeAsyncPool :=
  let messageInfos := activeHistory.outputs.foldl (fun infos historyItem =>
    historyItem.stateChanges.asyncPoolChanges.entries.foldl applyInfoChange infos)
    finalState.messageInfoCache
  ⟨finalState, activeHistory, ∅, messageInfos⟩

/-- `SpeculativeAsyncPool::push_new_message`. -/
def pushNewMessage (self : SpeculativeAsyncPool) (msg : AsyncMessage) : SpeculativeAsyncPool :=
  { self with
    poolChanges := self.poolChanges.pushAdd msg.computeId msg
    messageInfos := self.messageInfos.insert msg.computeId (AsyncMessageInfo.ofMessage msg) }

/-! ### `fetch_msgs` -/

/-- The state of the loops of `fetch_msgs`: the ids still wanted, the
messages found, the accumulated updates (`current_changes`) and the pool
changes with the recorded deletions. -/
structure FetchAcc where
  wanted : List AsyncMessageId
  msgs : List (AsyncMessageId × AsyncMessage)
  currentChanges : SortedMap AsyncMessageId AsyncMessageUpdate
  poolChanges : AsyncPoolChanges

namespace FetchAcc

/-- `current_changes.get(id).cloned().unwrap_or_default()`. -/
def updatesOf (acc : FetchAcc) (id : AsyncMessageId) : AsyncMessageUpdate :=
  (acc.currentChanges.get? id).getD default

/-- A message found: it is returned, and deleted from the pool when
`delete_existing` is set. -/
def take (acc : FetchAcc) (deleteExisting : Bool) (id : AsyncMessageId) (msg : AsyncMessage) :
    FetchAcc :=
  { acc with
    msgs := acc.msgs ++ [(id, msg)]
    poolChanges := if deleteExisting then acc.poolChanges.pushDelete id else acc.poolChanges }

/-- An id still wanted by the next layer. -/
def keep (acc : FetchAcc) (id : AsyncMessageId) : FetchAcc :=
  { acc with wanted := acc.wanted ++ [id] }

/-- `current_changes.entry(id).and_modify(|e| e.apply(update))`. -/
def modify (acc : FetchAcc) (id : AsyncMessageId) (update : AsyncMessageUpdate) : FetchAcc :=
  { acc with
    currentChanges :=
      match acc.currentChanges.get? id with
      | some e => acc.currentChanges.insert id (e.apply update)
      | none => acc.currentChanges }

end FetchAcc

/-- One id of the first loop of `fetch_msgs`, over the speculative changes
as they were when the call began. -/
def poolChangesStep (poolChangesClone : AsyncPoolChanges) (deleteExisting : Bool) (acc : FetchAcc)
    (id : AsyncMessageId) : FetchAcc :=
  match poolChangesClone.get? id with
  | some (.set msg) => acc.take deleteExisting id msg
  | some (.update msgUpdate) => (acc.modify id msgUpdate).keep id
  | some .delete => acc.keep id
  | none => acc.keep id

/-- One id of the second loop of `fetch_msgs`, over the active history. -/
def historyStep (activeHistory : ActiveHistory) (deleteExisting : Bool) (acc : FetchAcc)
    (id : AsyncMessageId) : FetchAcc :=
  match activeHistory.fetchMessage id (acc.updatesOf id) with
  | .present (.set msg) => acc.take deleteExisting id (msg.apply (acc.updatesOf id))
  | .present (.update msgUpdate) => (acc.modify id msgUpdate).keep id
  | _ => acc.keep id

/-- One id of the last loop of `fetch_msgs`, over the final pool. -/
def finalStep (deleteExisting : Bool) (acc : FetchAcc)
    (fetched : AsyncMessageId × Option AsyncMessage) : FetchAcc :=
  match fetched with
  | (id, some msg) => acc.take deleteExisting id (msg.apply (acc.updatesOf id))
  | (_, none) => acc

/-- The first loop of `fetch_msgs`, from a default update for every wanted
id. -/
def fetchFromPoolChanges (self : SpeculativeAsyncPool) (wantedIds : List AsyncMessageId)
    (deleteExisting : Bool) : FetchAcc :=
  let currentChanges := wantedIds.foldl (fun changes id => changes.insert id default) ∅
  wantedIds.foldl (poolChangesStep self.poolChanges deleteExisting)
    ⟨[], [], currentChanges, self.poolChanges⟩

/-- The second loop of `fetch_msgs`. -/
def fetchFromHistory (self : SpeculativeAsyncPool) (deleteExisting : Bool) (acc : FetchAcc) :
    FetchAcc :=
  acc.wanted.foldl (historyStep self.activeHistory deleteExisting) { acc with wanted := [] }

/-- The last loop of `fetch_msgs`. -/
def fetchFromFinal (self : SpeculativeAsyncPool) (deleteExisting : Bool) (acc : FetchAcc) :
    FetchAcc :=
  (self.finalState.fetchMessages acc.wanted).foldl (finalStep deleteExisting) acc

/-- `SpeculativeAsyncPool::fetch_msgs`: the wanted messages, looked up in
the speculative changes, then the active history, then the final pool; with
`delete_existing`, each message found is deleted in the pool changes. -/
def fetchMsgs (self : SpeculativeAsyncPool) (wantedIds : List AsyncMessageId)
    (deleteExisting : Bool) : List (AsyncMessageId × AsyncMessage) × SpeculativeAsyncPool :=
  let acc := self.fetchFromFinal deleteExisting
    (self.fetchFromHistory deleteExisting (self.fetchFromPoolChanges wantedIds deleteExisting))
  (acc.msgs, { self with poolChanges := acc.poolChanges })

/-! ### Taking and settling -/

/-- The choice loop of `take_batch_to_execute`: in id order, every message
executable at `slot` whose gas still fits. -/
def chooseMessages (slot : Slot) (asyncMsgCstGasCost : UInt64) :
    UInt64 × List AsyncMessageId → AsyncMessageId × AsyncMessageInfo → UInt64 × List AsyncMessageId
  | (availableGas, wanted), (messageId, messageInfo) =>
    let correctedMaxGas := saturatingAdd messageInfo.maxGas asyncMsgCstGasCost
    if availableGas ≥ correctedMaxGas ∧ slot ≥ messageInfo.validityStart ∧
        slot < messageInfo.validityEnd ∧ messageInfo.canBeExecuted then
      (availableGas - correctedMaxGas, wanted ++ [messageId])
    else (availableGas, wanted)

/-- `SpeculativeAsyncPool::take_batch_to_execute`. -/
def takeBatchToExecute (self : SpeculativeAsyncPool) (slot : Slot) (maxGas asyncMsgCstGasCost : UInt64) :
    List (AsyncMessageId × AsyncMessage) × SpeculativeAsyncPool :=
  let wanted := (self.messageInfos.entries.foldl (chooseMessages slot asyncMsgCstGasCost)
    (maxGas, [])).2
  let taken := self.fetchMsgs wanted true
  (taken.1, { taken.2 with
    messageInfos := taken.1.foldl (fun infos e => infos.erase e.1) taken.2.messageInfos })

/-- `excess_count` calls of `pop_last`: the removed entries, greatest id
first, and what remains. -/
def popLastN : ℕ → SortedMap AsyncMessageId AsyncMessageInfo →
    List (AsyncMessageId × AsyncMessageInfo) × SortedMap AsyncMessageId AsyncMessageInfo
  | 0, infos => ([], infos)
  | n + 1, infos =>
    match infos.popLast with
    | some (e, rest) =>
      let (popped, remaining) := popLastN n rest
      (e :: popped, remaining)
    | none => ([], infos)

/-- The activation of the summaries whose trigger the slot's ledger changes
fire. -/
def activate (ledgerChanges : LedgerChanges) (info : AsyncMessageInfo) : AsyncMessageInfo :=
  match info.trigger with
  | some filter => if isTriggered filter ledgerChanges then { info with canBeExecuted := true } else info
  | none => info

/-- The first part of `settle_slot`: the summaries and the new messages
whose validity ends at `slot` or before are dropped (the end is not part of
the validity interval).  The dropped entries, summaries first, then the new
messages. -/
def expireMessages (self : SpeculativeAsyncPool) (slot : Slot) :
    List (AsyncMessageId × AsyncMessageInfo) × SpeculativeAsyncPool :=
  let eliminatedInfos := self.messageInfos.entries.filter fun e => !decide (slot < e.2.validityEnd)
  let keepChange : AsyncMessageId → MessageChange → Bool := fun _ v =>
    match v with
    | .set message => decide (slot < message.validityEnd)
    | _ => true
  let eliminatedNewMessages := self.poolChanges.entries.filter fun e => !keepChange e.1 e.2
  (eliminatedInfos ++ eliminatedNewMessages.filterMap fun e =>
      match e.2 with
      | .set v => some (e.1, AsyncMessageInfo.ofMessage v)
      | _ => none,
    { self with
      messageInfos := self.messageInfos.filter fun _ info => decide (slot < info.validityEnd)
      poolChanges := self.poolChanges.filter keepChange })

/-- The truncation of `settle_slot`: the summaries beyond the pool's maximal
length, greatest ids first, are dropped. -/
def truncateMessages (self : SpeculativeAsyncPool) :
    List (AsyncMessageId × AsyncMessageInfo) × SpeculativeAsyncPool :=
  let excessCount := self.messageInfos.size - self.finalState.config.maxLength.toNat
  let popped := popLastN excessCount self.messageInfos
  (popped.1, { self with messageInfos := popped.2 })

/-- The activation of `settle_slot`: the summaries whose trigger the slot's
ledger changes fire become executable, and the messages found for them get
an activating update. -/
def activateTriggered (self : SpeculativeAsyncPool) (ledgerChanges : LedgerChanges) :
    SpeculativeAsyncPool :=
  let triggeredInfo := self.messageInfos.entries.filter fun e =>
    match e.2.trigger with
    | some filter => isTriggered filter ledgerChanges
    | none => false
  let activated : SpeculativeAsyncPool :=
    { self with messageInfos := self.messageInfos.mapVals fun _ => activate ledgerChanges }
  let triggered := activated.fetchMsgs (triggeredInfo.map Prod.fst) false
  { triggered.2 with
    poolChanges := triggered.1.foldl (fun changes (e : AsyncMessageId × AsyncMessage) =>
      changes.pushActivate e.1) triggered.2.poolChanges }

/-- `SpeculativeAsyncPool::settle_slot`: drop the expired messages and those
beyond the pool's size, activate the triggered ones, and return the dropped
messages, read by `fetch_msgs`, for reimbursement. -/
def settleSlot (self : SpeculativeAsyncPool) (slot : Slot) (ledgerChanges : LedgerChanges) :
    List (AsyncMessageId × AsyncMessage) × SpeculativeAsyncPool :=
  let expired := self.expireMessages slot
  let excess := expired.2.truncateMessages
  (excess.2.activateTriggered ledgerChanges).fetchMsgs ((expired.1 ++ excess.1).map Prod.fst) true

/-! ### The pool view -/

/-- One layer of changes applied to the message of `id`. -/
def applyLayer (id : AsyncMessageId) (msg : Option AsyncMessage) (changes : AsyncPoolChanges) :
    Option AsyncMessage :=
  match changes.get? id with
  | some change => SetUpdateOrDelete.applyToOpt msg change
  | none => msg

/-- The message of `id` in the pool that the speculative state stands for:
the final message, then the changes of the history oldest first, then the
current changes. -/
def view (self : SpeculativeAsyncPool) (id : AsyncMessageId) : Option AsyncMessage :=
  (self.activeHistory.outputs.map (·.stateChanges.asyncPoolChanges) ++ [self.poolChanges]).foldl
    (applyLayer id) (self.finalState.messages.get? id)

/-! ### Lookups through the layers -/

/-- The update a history output holds for `id`, if it holds an update. -/
def updateOf (id : AsyncMessageId) (output : ExecutionOutput) : Option AsyncMessageUpdate :=
  match output.stateChanges.asyncPoolChanges.get? id with
  | some (.update u) => some u
  | _ => none

/-- Every change that the outputs hold for `id` is an update. -/
def OnlyUpdates (id : AsyncMessageId) (outputs : List ExecutionOutput) : Prop :=
  ∀ o ∈ outputs, ∀ c, o.stateChanges.asyncPoolChanges.get? id = some c → ∃ u, c = .update u

theorem OnlyUpdates.of_cons {id : AsyncMessageId} {o : ExecutionOutput} {os : List ExecutionOutput}
    (h : OnlyUpdates id (o :: os)) : OnlyUpdates id os :=
  fun o' ho' => h o' (List.mem_cons_of_mem _ ho')

/-- **`fetch_message` composes the updates of the history newest first.**
Walking the outputs from the newest, each older update is merged on top of
the updates already met, so that of two `Set`s of a field the older one
wins. -/
theorem fetchMessageLoop_of_updates (id : AsyncMessageId) :
    ∀ (os : List ExecutionOutput) (cur : AsyncMessageUpdate), OnlyUpdates id os →
      ActiveHistory.fetchMessageLoop id os cur =
        .present (.update ((os.filterMap (updateOf id)).foldl AsyncMessageUpdate.apply cur)) := by
  intro os
  induction os with
  | nil => intro cur _; rfl
  | cons o os ih =>
    intro cur hupd
    rw [ActiveHistory.fetchMessageLoop]
    cases hc : o.stateChanges.asyncPoolChanges.get? id with
    | none =>
      have hnone : updateOf id o = none := by rw [updateOf, hc]
      rw [List.filterMap_cons_none hnone]
      exact ih cur hupd.of_cons
    | some c =>
      obtain ⟨u, rfl⟩ := hupd o List.mem_cons_self _ hc
      have hsome : updateOf id o = some u := by rw [updateOf, hc]
      rw [List.filterMap_cons_some hsome, List.foldl_cons]
      exact ih _ hupd.of_cons

/-- Layers that only update a message apply the updates oldest first. -/
theorem foldl_applyLayer_of_updates (id : AsyncMessageId) :
    ∀ (os : List ExecutionOutput) (m : AsyncMessage), OnlyUpdates id os →
      (os.map (·.stateChanges.asyncPoolChanges)).foldl (applyLayer id) (some m) =
        some ((os.filterMap (updateOf id)).foldl AsyncMessage.apply m) := by
  intro os
  induction os with
  | nil => intro m _; rfl
  | cons o os ih =>
    intro m hupd
    rw [List.map_cons, List.foldl_cons]
    cases hc : o.stateChanges.asyncPoolChanges.get? id with
    | none =>
      have hlayer : applyLayer id (some m) o.stateChanges.asyncPoolChanges = some m := by
        rw [applyLayer, hc]
      have hnone : updateOf id o = none := by rw [updateOf, hc]
      rw [hlayer, List.filterMap_cons_none hnone]
      exact ih m hupd.of_cons
    | some c =>
      obtain ⟨u, rfl⟩ := hupd o List.mem_cons_self _ hc
      have hlayer : applyLayer id (some m) o.stateChanges.asyncPoolChanges = some (m.apply u) := by
        rw [applyLayer, hc]
        rfl
      have hsome : updateOf id o = some u := by rw [updateOf, hc]
      rw [hlayer, List.filterMap_cons_some hsome, List.foldl_cons]
      exact ih _ hupd.of_cons

/-- **The view applies the updates of the history oldest first.** -/
theorem view_of_updates {self : SpeculativeAsyncPool} {id : AsyncMessageId} {m : AsyncMessage}
    (hpool : self.poolChanges.get? id = none) (hupd : OnlyUpdates id self.activeHistory.outputs)
    (hfinal : self.finalState.messages.get? id = some m) :
    self.view id = some ((self.activeHistory.outputs.filterMap (updateOf id)).foldl
      AsyncMessage.apply m) := by
  rw [view, List.foldl_append, hfinal, foldl_applyLayer_of_updates id _ m hupd, List.foldl_cons,
    List.foldl_nil, applyLayer, hpool]

/-- **`fetch_msgs` of one id that the history only updates** returns the
final message with the updates merged newest first, as `fetch_message`
merges them. -/
theorem fetchMsgs_of_updates {self : SpeculativeAsyncPool} {id : AsyncMessageId} {m : AsyncMessage}
    (hpool : self.poolChanges.get? id = none) (hupd : OnlyUpdates id self.activeHistory.outputs)
    (hfinal : self.finalState.messages.get? id = some m) (deleteExisting : Bool) :
    (self.fetchMsgs [id] deleteExisting).1 =
      [(id, m.apply ((self.activeHistory.outputs.reverse.filterMap (updateOf id)).foldl
        AsyncMessageUpdate.apply default))] := by
  have hloop : self.activeHistory.fetchMessage id default = .present (.update
      ((self.activeHistory.outputs.reverse.filterMap (updateOf id)).foldl
        AsyncMessageUpdate.apply default)) :=
    fetchMessageLoop_of_updates id _ default fun o ho => hupd o (List.mem_reverse.mp ho)
  simp only [fetchMsgs, fetchFromPoolChanges, fetchFromHistory, fetchFromFinal, List.foldl_cons,
    List.foldl_nil, poolChangesStep, hpool, FetchAcc.keep,
    historyStep, FetchAcc.updatesOf, SortedMap.get?_insert, SortedMap.get?_empty, if_true,
    Option.getD_some, hloop, FetchAcc.modify, FinalAsyncPool.fetchMessages, List.map_cons,
    List.map_nil, finalStep, hfinal, FetchAcc.take, AsyncMessageUpdate.default_apply,
    List.nil_append]

/-! ### An id that no layer holds -/

/-- Nothing has been returned for `id`, and the pool changes hold `p` for
it. -/
def FetchAcc.Untouched (id : AsyncMessageId) (p : Option MessageChange) (acc : FetchAcc) : Prop :=
  (∀ m, (id, m) ∉ acc.msgs) ∧ acc.poolChanges.get? id = p

namespace FetchAcc

variable {id : AsyncMessageId} {p : Option MessageChange} {acc : FetchAcc}

theorem Untouched.take (h : acc.Untouched id p) (deleteExisting : Bool) {x : AsyncMessageId}
    (hx : x ≠ id) (msg : AsyncMessage) : (acc.take deleteExisting x msg).Untouched id p := by
  refine ⟨fun m hm => ?_, ?_⟩
  · rcases List.mem_append.mp hm with hm | hm
    · exact h.1 m hm
    · exact hx (Prod.mk.inj (List.mem_singleton.mp hm)).1.symm
  · show (if deleteExisting then acc.poolChanges.pushDelete x else acc.poolChanges).get? id = p
    split_ifs
    · rw [AsyncPoolChanges.get?_pushDelete_of_ne _ (Ne.symm hx)]
      exact h.2
    · exact h.2

theorem Untouched.keep (h : acc.Untouched id p) (x : AsyncMessageId) : (acc.keep x).Untouched id p :=
  h

theorem Untouched.modify (h : acc.Untouched id p) (x : AsyncMessageId) (update : AsyncMessageUpdate) :
    (acc.modify x update).Untouched id p :=
  h

end FetchAcc

section Absent

variable {id : AsyncMessageId} {p : Option MessageChange}

/-- A history without a change of `id` answers with the updates it is
given. -/
theorem fetchMessage_of_absent {history : ActiveHistory}
    (hhist : ∀ o ∈ history.outputs, o.stateChanges.asyncPoolChanges.get? id = none)
    (cur : AsyncMessageUpdate) : history.fetchMessage id cur = .present (.update cur) := by
  have hnone : ∀ o ∈ history.outputs.reverse, updateOf id o = none := fun o ho => by
    rw [updateOf, hhist o (List.mem_reverse.mp ho)]
  have hupd : OnlyUpdates id history.outputs.reverse := fun o ho c hc => by
    rw [hhist o (List.mem_reverse.mp ho)] at hc
    cases hc
  rw [ActiveHistory.fetchMessage, fetchMessageLoop_of_updates id _ cur hupd,
    List.filterMap_eq_nil_iff.mpr hnone, List.foldl_nil]

theorem untouched_poolChangesStep {clone : AsyncPoolChanges} (hclone : clone.get? id = none)
    (deleteExisting : Bool) {acc : FetchAcc} (h : acc.Untouched id p) (x : AsyncMessageId) :
    (poolChangesStep clone deleteExisting acc x).Untouched id p := by
  by_cases hx : x = id
  · subst hx
    rw [poolChangesStep, hclone]
    exact h.keep x
  · unfold poolChangesStep
    split
    · exact h.take deleteExisting hx _
    · exact (h.modify x _).keep x
    · exact h.keep x
    · exact h.keep x

theorem untouched_historyStep {history : ActiveHistory}
    (hhist : ∀ o ∈ history.outputs, o.stateChanges.asyncPoolChanges.get? id = none)
    (deleteExisting : Bool) {acc : FetchAcc} (h : acc.Untouched id p) (x : AsyncMessageId) :
    (historyStep history deleteExisting acc x).Untouched id p := by
  by_cases hx : x = id
  · subst hx
    rw [historyStep, fetchMessage_of_absent hhist]
    exact (h.modify x _).keep x
  · unfold historyStep
    split
    · exact h.take deleteExisting hx _
    · exact (h.modify x _).keep x
    · exact h.keep x

theorem untouched_finalStep (deleteExisting : Bool) {acc : FetchAcc} (h : acc.Untouched id p)
    {fetched : AsyncMessageId × Option AsyncMessage} (hfetched : fetched.1 = id → fetched.2 = none) :
    (finalStep deleteExisting acc fetched).Untouched id p := by
  obtain ⟨x, o⟩ := fetched
  cases o with
  | none => exact h
  | some msg =>
    have hx : x ≠ id := fun hx => by cases hfetched hx
    exact h.take deleteExisting hx _

/-- **An id that no layer holds is not returned by `fetch_msgs`**, and its
entry in the pool changes stays as it was. -/
theorem fetchMsgs_of_absent {self : SpeculativeAsyncPool} (hpool : self.poolChanges.get? id = none)
    (hhist : ∀ o ∈ self.activeHistory.outputs, o.stateChanges.asyncPoolChanges.get? id = none)
    (hfinal : self.finalState.messages.get? id = none) (wantedIds : List AsyncMessageId)
    (deleteExisting : Bool) :
    (∀ m, (id, m) ∉ (self.fetchMsgs wantedIds deleteExisting).1) ∧
      (self.fetchMsgs wantedIds deleteExisting).2.poolChanges.get? id = none := by
  -- the invariant is carried through the three loops in turn
  have h₁ : (self.fetchFromPoolChanges wantedIds deleteExisting).Untouched id none :=
    List.foldlRecOn (motive := FetchAcc.Untouched id none) _ _
      ⟨fun m hm => List.not_mem_nil hm, hpool⟩
      fun acc hacc x _ => untouched_poolChangesStep hpool deleteExisting hacc x
  have h₂ : (self.fetchFromHistory deleteExisting
      (self.fetchFromPoolChanges wantedIds deleteExisting)).Untouched id none :=
    List.foldlRecOn (motive := FetchAcc.Untouched id none) _ _ h₁
      fun acc hacc x _ => untouched_historyStep hhist deleteExisting hacc x
  exact List.foldlRecOn (motive := FetchAcc.Untouched id none) _ _ h₂
    fun acc hacc fetched hmem => untouched_finalStep deleteExisting hacc fun hx => by
      obtain ⟨x, -, rfl⟩ := List.mem_map.mp hmem
      subst hx
      exact hfinal

end Absent

/-! ### A message emitted in the slot it expires in -/

section Expired

variable {id : AsyncMessageId}

/-- Layers without a change of `id` leave its message as it is. -/
theorem foldl_applyLayer_of_absent :
    ∀ (os : List ExecutionOutput), (∀ o ∈ os, o.stateChanges.asyncPoolChanges.get? id = none) →
      ∀ msg : Option AsyncMessage, (os.map (·.stateChanges.asyncPoolChanges)).foldl (applyLayer id) msg = msg := by
  intro os
  induction os with
  | nil => intro _ msg; rfl
  | cons o os ih =>
    intro hhist msg
    have hlayer : applyLayer id msg o.stateChanges.asyncPoolChanges = msg := by
      rw [applyLayer, hhist o List.mem_cons_self]
    rw [List.map_cons, List.foldl_cons, hlayer]
    exact ih (fun o' ho' => hhist o' (List.mem_cons_of_mem _ ho')) msg

theorem view_of_absent {self : SpeculativeAsyncPool} (hpool : self.poolChanges.get? id = none)
    (hhist : ∀ o ∈ self.activeHistory.outputs, o.stateChanges.asyncPoolChanges.get? id = none)
    (hfinal : self.finalState.messages.get? id = none) : self.view id = none := by
  rw [view, List.foldl_append, hfinal, foldl_applyLayer_of_absent _ hhist, List.foldl_cons,
    List.foldl_nil, applyLayer, hpool]

/-- A message set by the current changes is in the view. -/
theorem view_of_set {self : SpeculativeAsyncPool} {msg : AsyncMessage}
    (hset : self.poolChanges.get? id = some (.set msg)) : self.view id = some msg := by
  rw [view, List.foldl_append, List.foldl_cons, List.foldl_nil, applyLayer, hset]
  rfl

/-- The expiry of `settle_slot` drops an expired `Set` from the pool changes. -/
theorem poolChanges_expireMessages_of_set {self : SpeculativeAsyncPool} {slot : Slot}
    {msg : AsyncMessage} (hset : self.poolChanges.get? id = some (.set msg))
    (hexp : ¬ slot < msg.validityEnd) : (self.expireMessages slot).2.poolChanges.get? id = none := by
  simp [expireMessages, hset, hexp]

/-- The activation of `settle_slot` gives no change to an id that no layer
holds. -/
theorem poolChanges_activateTriggered_of_absent {self : SpeculativeAsyncPool}
    (hpool : self.poolChanges.get? id = none)
    (hhist : ∀ o ∈ self.activeHistory.outputs, o.stateChanges.asyncPoolChanges.get? id = none)
    (hfinal : self.finalState.messages.get? id = none) (ledgerChanges : LedgerChanges) :
    (self.activateTriggered ledgerChanges).poolChanges.get? id = none := by
  let activated : SpeculativeAsyncPool :=
    { self with messageInfos := self.messageInfos.mapVals fun _ => activate ledgerChanges }
  obtain ⟨hnot, hpc⟩ := @fetchMsgs_of_absent id activated hpool hhist hfinal
    ((self.messageInfos.entries.filter fun e =>
      match e.2.trigger with
      | some filter => isTriggered filter ledgerChanges
      | none => false).map Prod.fst) false
  -- the activating updates go to the ids found, and `id` is not one of them
  exact List.foldlRecOn (motive := fun changes : AsyncPoolChanges => changes.get? id = none) _ _ hpc
    fun changes hchanges e he => by
      rw [AsyncPoolChanges.get?_pushActivate_of_ne _ fun h => hnot e.2 (by rw [h]; exact he)]
      exact hchanges

/-- **A message emitted in the slot it expires in is lost.**  When the
current changes set a message whose validity has ended at `slot` and no
other layer holds its id, the message is in the view before `settle_slot`,
not in the view after it, and not among the messages `settle_slot` returns
for reimbursement: the expiry drops its only copy before `fetch_msgs` looks
for it. -/
theorem settleSlot_of_expired_set {self : SpeculativeAsyncPool} {slot : Slot} {msg : AsyncMessage}
    (ledgerChanges : LedgerChanges) (hset : self.poolChanges.get? id = some (.set msg))
    (hexp : ¬ slot < msg.validityEnd)
    (hhist : ∀ o ∈ self.activeHistory.outputs, o.stateChanges.asyncPoolChanges.get? id = none)
    (hfinal : self.finalState.messages.get? id = none) :
    self.view id = some msg ∧ (∀ m, (id, m) ∉ (self.settleSlot slot ledgerChanges).1) ∧
      (self.settleSlot slot ledgerChanges).2.view id = none := by
  have hexpired := poolChanges_expireMessages_of_set hset hexp
  have htruncated : (self.expireMessages slot).2.truncateMessages.2.poolChanges.get? id = none :=
    hexpired
  have hactivated := poolChanges_activateTriggered_of_absent htruncated hhist hfinal ledgerChanges
  obtain ⟨hnot, hpc⟩ := fetchMsgs_of_absent hactivated hhist hfinal _ true
  exact ⟨view_of_set hset, hnot, view_of_absent hpc hhist hfinal⟩

end Expired

/-- A final pool without messages. -/
def emptyFinalPool : FinalAsyncPool := ⟨⟨10, 100, 100, 32, 255⟩, ∅, ∅, fun _ => rfl⟩

/-- The default message, valid until slot `(1, 0)` excluded. -/
def expiringMessage : AsyncMessage := { (default : AsyncMessage) with validityEnd := ⟨1, 0⟩ }

/-- A fresh speculative pool over an empty final pool, in which
`expiringMessage` was emitted. -/
def expiringPool : SpeculativeAsyncPool :=
  (new emptyFinalPool ⟨[]⟩).pushNewMessage expiringMessage

theorem settleSlot_loses_expired_new_message :
    expiringPool.view expiringMessage.computeId = some expiringMessage ∧
      (expiringPool.messageInfos.get? expiringMessage.computeId).isSome ∧
      (∀ m, (expiringMessage.computeId, m) ∉ (expiringPool.settleSlot ⟨1, 0⟩ ∅).1) ∧
      (expiringPool.settleSlot ⟨1, 0⟩ ∅).2.view expiringMessage.computeId = none := by
  have hset : expiringPool.poolChanges.get? expiringMessage.computeId =
      some (.set expiringMessage) :=
    AsyncPoolChanges.get?_pushAdd_self _ _ _
  obtain ⟨hview, hnot, hafter⟩ :=
    settleSlot_of_expired_set ∅ hset (lt_irrefl _) (fun o ho => nomatch ho) rfl
  refine ⟨hview, ?_, hnot, hafter⟩
  simp [expiringPool, pushNewMessage]

/-- The final pool holding the default message only. -/
def defaultMessageFinalPool : FinalAsyncPool :=
  ⟨⟨10, 100, 100, 32, 255⟩, .singleton (default : AsyncMessage).computeId default,
    .singleton (default : AsyncMessage).computeId (AsyncMessageInfo.ofMessage default), fun q => by
      simp only [SortedMap.get?_singleton]
      split_ifs <;> rfl⟩

/-- The output of a slot that sets the gas of the default message. -/
def maxGasOutput (period gas : UInt64) : ExecutionOutput :=
  let change : MessageChange := .update { maxGas := .set gas }
  ⟨⟨period, 0⟩, { asyncPoolChanges := SortedMap.singleton (default : AsyncMessage).computeId change }⟩

/-- A pool whose history sets the gas of the default message to 1, then to
2. -/
def olderNewerPool : SpeculativeAsyncPool :=
  ⟨defaultMessageFinalPool, ⟨[maxGasOutput 1 1, maxGasOutput 2 2]⟩, ∅, ∅⟩

end SpeculativeAsyncPool

end Massa
