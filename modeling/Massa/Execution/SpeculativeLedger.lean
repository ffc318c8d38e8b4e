import Massa.Execution.SpeculativeExecutedOps

/-!
# The speculative ledger (`massa-execution-worker/src/speculative_ledger.rs`)

A `SpeculativeLedger` reads through three layers without merging them: the
changes added by the current slot (`added_changes`), the active history
newest first, and the final ledger.  Each read (`get_balance`,
`get_bytecode`, `entry_exists`, `get_data_entry`, `has_data_entry`) is the
`*_or_else` read of the added changes with a fallback that searches the
history and then the final ledger.

The layered reads are compared with the reads of the materialised ledger:
the final ledger with every history output's ledger changes applied, oldest
first, and then the added changes (`SpeculativeLedger.materialised`), under
the abstract semantics in which an update of an absent address creates a
default entry.  Main result:

* `SpeculativeLedger.reads_eq_materialised` — the datastore reads always
  agree with the materialised ledger; the balance, bytecode and existence
  reads agree when every update, in the history and in the added changes,
  is of an address that exists when it is applied
  (`SpeculativeLedger.UpdatesExisting`).  Without that condition they
  differ: an update that keeps the balance of an absent address makes the
  layered read fall through to "absent", while the materialised ledger
  holds a default entry (`getBalance_update_of_absent`).

The proof goes through the generic run rule `Layers.firstAnswer_reverse`:
each change set "reads through" for each read (`getBalance_applyChanges`
and its siblings), and each source read is that read through layers
(`getBalanceOrElse_eq_answer`, `getD_fetchBalance`, …).
-/

namespace Massa

open Layers HistorySearchResult

namespace LedgerChanges

/-! ### What one change set decides about a read

`some r` when the change set fixes the read to `r`, `none` when the read
goes on to the layers below.  The `*_or_else` reads of the added changes and
the history lookups make the same case split. -/

/-- The balance of `addr` as decided by `c`. -/
def balanceAnswer (c : LedgerChanges) (addr : Address) : Option (Option Amount) :=
  match c.get? addr with
  | some (.set v) => some (some v.balance)
  | some (.update u) =>
    match u.balance with
    | .set v => some (some v)
    | .keep => none
  | some .delete => some none
  | none => none

/-- The bytecode of `addr` as decided by `c`. -/
def bytecodeAnswer (c : LedgerChanges) (addr : Address) : Option (Option Bytecode) :=
  match c.get? addr with
  | some (.set v) => some (some v.bytecode)
  | some (.update u) =>
    match u.bytecode with
    | .set v => some (some v)
    | .keep => none
  | some .delete => some none
  | none => none

/-- The datastore value at `key` of `addr` as decided by `c`. -/
def dataAnswer (c : LedgerChanges) (addr : Address) (key : Bytes) : Option (Option Bytes) :=
  match c.get? addr with
  | some (.set v) => some (v.datastore.get? key)
  | some (.update u) => (u.datastore.get? key).map (SetOrDelete.applyToOpt none)
  | some .delete => some none
  | none => none

/-- The existence of `addr` as decided by `c`: a set or an update makes the
entry exist. -/
def existsAnswer (c : LedgerChanges) (addr : Address) : Option Bool :=
  match c.get? addr with
  | some (.set _) => some true
  | some (.update _) => some true
  | some .delete => some false
  | none => none

theorem getBalanceOrElse_eq_answer (c : LedgerChanges) (addr : Address) (f : Option Amount) :
    c.getBalanceOrElse addr f = (c.balanceAnswer addr).getD f := by
  unfold getBalanceOrElse balanceAnswer
  rcases c.get? addr with _ | _ | ⟨_ | _, _, _⟩ | _ <;> rfl

theorem getBytecodeOrElse_eq_answer (c : LedgerChanges) (addr : Address) (f : Option Bytecode) :
    c.getBytecodeOrElse addr f = (c.bytecodeAnswer addr).getD f := by
  unfold getBytecodeOrElse bytecodeAnswer
  rcases c.get? addr with _ | _ | ⟨_, _ | _, _⟩ | _ <;> rfl

theorem getDataEntryOrElse_eq_answer (c : LedgerChanges) (addr : Address) (key : Bytes)
    (f : Option Bytes) : c.getDataEntryOrElse addr key f = (c.dataAnswer addr key).getD f := by
  unfold getDataEntryOrElse dataAnswer
  rcases c.get? addr with _ | _ | u | _
  all_goals try rfl
  dsimp only
  rcases u.datastore.get? key with _ | _ | _ <;> rfl

theorem hasDataEntryOrElse_eq_answer (c : LedgerChanges) (addr : Address) (key : Bytes)
    (f : Bool) :
    c.hasDataEntryOrElse addr key f = ((c.dataAnswer addr key).map Option.isSome).getD f := by
  unfold hasDataEntryOrElse dataAnswer
  rcases c.get? addr with _ | _ | u | _
  all_goals try rfl
  dsimp only
  rcases u.datastore.get? key with _ | _ | _ <;> rfl

theorem entryExistsOrElse_eq_answer (c : LedgerChanges) (addr : Address) (f : Bool) :
    c.entryExistsOrElse addr f = (c.existsAnswer addr).getD f := by
  unfold entryExistsOrElse existsAnswer
  rcases c.get? addr with _ | _ | _ | _ <;> rfl

end LedgerChanges

namespace AbstractLedger

/-- Every update in `c` is of an address that exists in `L`. -/
def UpdatesExisting (L : AbstractLedger) (c : LedgerChanges) : Prop :=
  ∀ addr u, c.get? addr = some (.update u) → (L addr).isSome

/-! ### Each change set reads through -/

section ReadsThrough

variable {L : AbstractLedger} {c : LedgerChanges}

/-- An update of an existing entry patches that entry. -/
theorem applyChanges_of_update (h : L.UpdatesExisting c) {addr : Address}
    {u : LedgerEntryUpdate} (hc : c.get? addr = some (.update u)) :
    ∃ e, L addr = some e ∧ L.applyChanges c addr = some (e.apply u) := by
  obtain ⟨e, he⟩ := Option.isSome_iff_exists.mp (h addr u hc)
  refine ⟨e, he, ?_⟩
  rw [applyChanges, hc, he]
  rfl

theorem getBalance_applyChanges (h : L.UpdatesExisting c) (addr : Address) :
    (L.applyChanges c).getBalance addr = (c.balanceAnswer addr).getD (L.getBalance addr) := by
  unfold LedgerChanges.balanceAnswer
  rcases hc : c.get? addr with _ | v | u | _
  · simp only [getBalance, applyChanges, hc, Option.elim_none, Option.getD_none]
  · simp only [getBalance, applyChanges, hc]
    rfl
  · obtain ⟨e, he, happ⟩ := applyChanges_of_update h hc
    rw [getBalance, getBalance, happ, he]
    simp only [Option.map_some, LedgerEntry.apply]
    cases u.balance <;> rfl
  · simp only [getBalance, applyChanges, hc]
    rfl

theorem getBytecode_applyChanges (h : L.UpdatesExisting c) (addr : Address) :
    (L.applyChanges c).getBytecode addr = (c.bytecodeAnswer addr).getD (L.getBytecode addr) := by
  unfold LedgerChanges.bytecodeAnswer
  rcases hc : c.get? addr with _ | v | u | _
  · simp only [getBytecode, applyChanges, hc, Option.elim_none, Option.getD_none]
  · simp only [getBytecode, applyChanges, hc]
    rfl
  · obtain ⟨e, he, happ⟩ := applyChanges_of_update h hc
    rw [getBytecode, getBytecode, happ, he]
    simp only [Option.map_some, LedgerEntry.apply]
    cases u.bytecode <;> rfl
  · simp only [getBytecode, applyChanges, hc]
    rfl

/-- Existence reads through the added changes with no condition: an update
creates the entry if needed. -/
theorem entryExists_applyChanges_of_existsAnswer (addr : Address) :
    (L.applyChanges c).entryExists addr = (c.existsAnswer addr).getD (L.entryExists addr) := by
  unfold LedgerChanges.existsAnswer
  rcases hc : c.get? addr with _ | _ | _ | _ <;> simp only [entryExists, applyChanges, hc] <;> rfl

/-- Existence as the history decides it, through the balance lookup: an
update that keeps the balance is passed over, which is right only when the
entry already exists. -/
theorem entryExists_applyChanges (h : L.UpdatesExisting c) (addr : Address) :
    (L.applyChanges c).entryExists addr =
      ((c.balanceAnswer addr).map Option.isSome).getD (L.entryExists addr) := by
  unfold LedgerChanges.balanceAnswer
  rcases hc : c.get? addr with _ | v | u | _
  · simp only [entryExists, applyChanges, hc, Option.elim_none, Option.map_none,
      Option.getD_none]
  · simp only [entryExists, applyChanges, hc]
    rfl
  · obtain ⟨e, he, happ⟩ := applyChanges_of_update h hc
    rw [entryExists, entryExists, happ, he]
    simp only [Option.isSome_some, LedgerEntry.apply]
    cases u.balance <;> rfl
  · simp only [entryExists, applyChanges, hc]
    rfl

/-- Datastore reads read through with no condition: an update of an absent
address patches the empty datastore of the default entry, which reads as
the absent entry does. -/
theorem getDataEntry_applyChanges (addr : Address) (key : Bytes) :
    (L.applyChanges c).getDataEntry addr key =
      (c.dataAnswer addr key).getD (L.getDataEntry addr key) := by
  unfold LedgerChanges.dataAnswer
  rcases hc : c.get? addr with _ | v | u | _
  · simp only [getDataEntry, applyChanges, hc, Option.elim_none, Option.getD_none]
  · simp only [getDataEntry, applyChanges, hc]
    rfl
  · simp only [getDataEntry, applyChanges, hc, Option.elim_some,
      SetUpdateOrDelete.applyToOpt_update, Option.bind_some]
    show (LedgerEntry.apply _ u).datastore.get? key = _
    rw [LedgerEntry.datastore_apply, Action.pointwise_apply]
    rcases hd : u.datastore.get? key with _ | w | _
    · cases L addr <;> simp [Action.optAct]
      rfl
    · rfl
    · rfl
  · simp only [getDataEntry, applyChanges, hc]
    rfl

theorem hasDataEntry_applyChanges (addr : Address) (key : Bytes) :
    (L.applyChanges c).hasDataEntry addr key =
      ((c.dataAnswer addr key).map Option.isSome).getD (L.hasDataEntry addr key) := by
  rw [hasDataEntry, hasDataEntry, getDataEntry_applyChanges, Option.getD_map]

end ReadsThrough

end AbstractLedger

namespace ActiveHistory

/-! ### Each history lookup is a read through layers -/

variable {ρ : Type}

theorem getD_fetchBalance (H : ActiveHistory) (addr : Address) (g : Option Amount → ρ)
    (base : ρ) :
    ((H.fetchBalance addr).answer.map g).getD base =
      firstAnswer (fun o => (o.stateChanges.ledgerChanges.balanceAnswer addr).map g)
        H.outputs.reverse base := by
  rw [fetchBalance, search, answer_searchNewestFirst]
  congr
  funext o
  unfold LedgerChanges.balanceAnswer
  rcases o.stateChanges.ledgerChanges.get? addr with _ | _ | ⟨_ | _, _, _⟩ | _ <;> rfl

theorem getD_fetchBytecode (H : ActiveHistory) (addr : Address) (g : Option Bytecode → ρ)
    (base : ρ) :
    ((H.fetchBytecode addr).answer.map g).getD base =
      firstAnswer (fun o => (o.stateChanges.ledgerChanges.bytecodeAnswer addr).map g)
        H.outputs.reverse base := by
  rw [fetchBytecode, search, answer_searchNewestFirst]
  congr
  funext o
  unfold LedgerChanges.bytecodeAnswer
  rcases o.stateChanges.ledgerChanges.get? addr with _ | _ | ⟨_, _ | _, _⟩ | _ <;> rfl

theorem getD_fetchActiveHistoryDataEntry (H : ActiveHistory) (addr : Address) (key : Bytes)
    (g : Option Bytes → ρ) (base : ρ) :
    ((H.fetchActiveHistoryDataEntry addr key).answer.map g).getD base =
      firstAnswer (fun o => (o.stateChanges.ledgerChanges.dataAnswer addr key).map g)
        H.outputs.reverse base := by
  rw [fetchActiveHistoryDataEntry, search, answer_searchNewestFirst]
  congr
  funext o
  unfold LedgerChanges.dataAnswer
  rcases o.stateChanges.ledgerChanges.get? addr with _ | v | u | _
  · rfl
  · dsimp only
    cases v.datastore.get? key <;> rfl
  · dsimp only
    rcases u.datastore.get? key with _ | _ | _ <;> rfl
  · rfl

end ActiveHistory

/-- Applying the ledger changes of one history output. -/
def applyOutput (L : AbstractLedger) (o : ExecutionOutput) : AbstractLedger :=
  L.applyChanges o.stateChanges.ledgerChanges

/-- `SpeculativeLedger`: the final ledger (read at its abstract meaning), the
active history, and the changes added since the slot began.  The source
holds the first two behind shared locks; the reads only take read locks. -/
structure SpeculativeLedger where
  finalLedger : AbstractLedger
  activeHistory : ActiveHistory
  addedChanges : LedgerChanges

namespace SpeculativeLedger

/-- `SpeculativeLedger::get_balance`: added changes, then history, then
final ledger. -/
def getBalance (self : SpeculativeLedger) (addr : Address) : Option Amount :=
  self.addedChanges.getBalanceOrElse addr
    ((self.activeHistory.fetchBalance addr).orElse (self.finalLedger.getBalance addr))

/-- `SpeculativeLedger::get_bytecode`. -/
def getBytecode (self : SpeculativeLedger) (addr : Address) : Option Bytecode :=
  self.addedChanges.getBytecodeOrElse addr
    ((self.activeHistory.fetchBytecode addr).orElse (self.finalLedger.getBytecode addr))

/-- `SpeculativeLedger::entry_exists`: the history part goes through
`fetch_balance`. -/
def entryExists (self : SpeculativeLedger) (addr : Address) : Bool :=
  self.addedChanges.entryExistsOrElse addr
    (match self.activeHistory.fetchBalance addr with
     | present _ => true
     | noInfo => self.finalLedger.entryExists addr
     | absent => false)

/-- `SpeculativeLedger::get_data_entry`. -/
def getDataEntry (self : SpeculativeLedger) (addr : Address) (key : Bytes) : Option Bytes :=
  self.addedChanges.getDataEntryOrElse addr key
    ((self.activeHistory.fetchActiveHistoryDataEntry addr key).orElse
      (self.finalLedger.getDataEntry addr key))

/-- `SpeculativeLedger::has_data_entry`. -/
def hasDataEntry (self : SpeculativeLedger) (addr : Address) (key : Bytes) : Bool :=
  self.addedChanges.hasDataEntryOrElse addr key
    (match self.activeHistory.fetchActiveHistoryDataEntry addr key with
     | present _ => true
     | noInfo => (self.finalLedger.getDataEntry addr key).isSome
     | absent => false)

/-- The final ledger with the history's ledger changes applied, oldest
first. -/
def historyLedger (s : SpeculativeLedger) : AbstractLedger :=
  s.activeHistory.outputs.foldl applyOutput s.finalLedger

/-- The ledger the speculative ledger stands for: the history and then the
added changes applied to the final ledger. -/
def materialised (s : SpeculativeLedger) : AbstractLedger :=
  s.historyLedger.applyChanges s.addedChanges

/-- Every update, along the history and in the added changes, is of an
address that exists when it is applied. -/
def UpdatesExisting (s : SpeculativeLedger) : Prop :=
  GoodRun applyOutput (fun L o => L.UpdatesExisting o.stateChanges.ledgerChanges)
      s.finalLedger s.activeHistory.outputs ∧
    s.historyLedger.UpdatesExisting s.addedChanges

/-! ### The three-layer read -/

section Layered

variable {ρ : Type} (read : AbstractLedger → ρ) (good : AbstractLedger → LedgerChanges → Prop)
  {ansTop ansHist : LedgerChanges → Option ρ}

/-- If `read` reads through every change set where `good` holds (with the
answers `ansHist` in the history and `ansTop` in the added changes), then
the read of the added changes over the history newest first over the final
ledger is the read of the materialised ledger. -/
theorem read_layers (hTop : ∀ L c, good L c → read (L.applyChanges c) = (ansTop c).getD (read L))
    (hHist : ∀ L c, good L c → read (L.applyChanges c) = (ansHist c).getD (read L))
    (s : SpeculativeLedger)
    (hrun : GoodRun applyOutput (fun L o => good L o.stateChanges.ledgerChanges)
      s.finalLedger s.activeHistory.outputs)
    (hadd : good s.historyLedger s.addedChanges) :
    (ansTop s.addedChanges).getD
        (firstAnswer (fun o => ansHist o.stateChanges.ledgerChanges)
          s.activeHistory.outputs.reverse (read s.finalLedger)) =
      read s.materialised := by
  -- each history output reads through, as a layer of the generic run rule
  have hstep : ∀ L o, good L o.stateChanges.ledgerChanges →
      ReadsThrough read applyOutput (fun o => ansHist o.stateChanges.ledgerChanges) L o :=
    fun L o hgood => hHist L _ hgood
  have hhist : firstAnswer (fun o => ansHist o.stateChanges.ledgerChanges)
      s.activeHistory.outputs.reverse (read s.finalLedger) = read s.historyLedger :=
    firstAnswer_reverse hstep _ _ hrun
  rw [hhist, materialised, hTop _ _ hadd]

end Layered

/-- With no condition on a step, every run is good. -/
theorem goodRun_true (s : SpeculativeLedger) :
    GoodRun applyOutput (fun _ _ => True) s.finalLedger s.activeHistory.outputs :=
  goodRun_of_forall (fun _ _ => trivial) _ _

theorem getBalance_eq (s : SpeculativeLedger) (h : s.UpdatesExisting) (addr : Address) :
    s.getBalance addr = s.materialised.getBalance addr := by
  have hfetch := s.activeHistory.getD_fetchBalance addr id (s.finalLedger.getBalance addr)
  rw [Option.map_id, id] at hfetch
  rw [getBalance, LedgerChanges.getBalanceOrElse_eq_answer, orElse_eq_answer, hfetch]
  exact read_layers (fun L => L.getBalance addr) AbstractLedger.UpdatesExisting
    (fun L c hc => L.getBalance_applyChanges hc addr)
    (fun L c hc => L.getBalance_applyChanges hc addr) s h.1 h.2

theorem getBytecode_eq (s : SpeculativeLedger) (h : s.UpdatesExisting) (addr : Address) :
    s.getBytecode addr = s.materialised.getBytecode addr := by
  have hfetch := s.activeHistory.getD_fetchBytecode addr id (s.finalLedger.getBytecode addr)
  rw [Option.map_id, id] at hfetch
  rw [getBytecode, LedgerChanges.getBytecodeOrElse_eq_answer, orElse_eq_answer, hfetch]
  exact read_layers (fun L => L.getBytecode addr) AbstractLedger.UpdatesExisting
    (fun L c hc => L.getBytecode_applyChanges hc addr)
    (fun L c hc => L.getBytecode_applyChanges hc addr) s h.1 h.2

theorem entryExists_eq (s : SpeculativeLedger) (h : s.UpdatesExisting) (addr : Address) :
    s.entryExists addr = s.materialised.entryExists addr := by
  have hfetch := s.activeHistory.getD_fetchBalance addr Option.isSome
    (s.finalLedger.entryExists addr)
  have hmatch : (match s.activeHistory.fetchBalance addr with
      | present _ => true
      | noInfo => s.finalLedger.entryExists addr
      | absent => false) =
      ((s.activeHistory.fetchBalance addr).answer.map Option.isSome).getD
        (s.finalLedger.entryExists addr) := by
    cases s.activeHistory.fetchBalance addr <;> rfl
  rw [entryExists, LedgerChanges.entryExistsOrElse_eq_answer, hmatch, hfetch]
  -- the added changes answer through `entry_exists_or_else`, the history
  -- through `fetch_balance`
  exact read_layers (fun L => L.entryExists addr) AbstractLedger.UpdatesExisting
    (fun L c _ => L.entryExists_applyChanges_of_existsAnswer addr)
    (fun L c hc => L.entryExists_applyChanges hc addr) s h.1 h.2

theorem getDataEntry_eq (s : SpeculativeLedger) (addr : Address) (key : Bytes) :
    s.getDataEntry addr key = s.materialised.getDataEntry addr key := by
  have hfetch := s.activeHistory.getD_fetchActiveHistoryDataEntry addr key id
    (s.finalLedger.getDataEntry addr key)
  rw [Option.map_id, id] at hfetch
  rw [getDataEntry, LedgerChanges.getDataEntryOrElse_eq_answer, orElse_eq_answer, hfetch]
  exact read_layers (fun L => L.getDataEntry addr key) (fun _ _ => True)
    (fun L c _ => L.getDataEntry_applyChanges addr key)
    (fun L c _ => L.getDataEntry_applyChanges addr key) s (goodRun_true s) trivial

theorem hasDataEntry_eq (s : SpeculativeLedger) (addr : Address) (key : Bytes) :
    s.hasDataEntry addr key = s.materialised.hasDataEntry addr key := by
  have hfetch := s.activeHistory.getD_fetchActiveHistoryDataEntry addr key Option.isSome
    (s.finalLedger.hasDataEntry addr key)
  have hmatch : (match s.activeHistory.fetchActiveHistoryDataEntry addr key with
      | present _ => true
      | noInfo => (s.finalLedger.getDataEntry addr key).isSome
      | absent => false) =
      ((s.activeHistory.fetchActiveHistoryDataEntry addr key).answer.map Option.isSome).getD
        (s.finalLedger.hasDataEntry addr key) := by
    cases s.activeHistory.fetchActiveHistoryDataEntry addr key <;> rfl
  rw [hasDataEntry, LedgerChanges.hasDataEntryOrElse_eq_answer, hmatch, hfetch]
  exact read_layers (fun L => L.hasDataEntry addr key) (fun _ _ => True)
    (fun L c _ => L.hasDataEntry_applyChanges addr key)
    (fun L c _ => L.hasDataEntry_applyChanges addr key) s (goodRun_true s) trivial

/-- Every address exists with a default entry; one history slot sets the
balance of `zeroAddress` to 5 and the added changes set its bytecode to
`[1]`. -/
def existingEntriesExample : SpeculativeLedger where
  finalLedger := fun _ => some default
  activeHistory := ⟨[{
    slot := ⟨0, 0⟩
    stateChanges := { ledgerChanges := .singleton zeroAddress (.update ⟨.set ⟨5⟩, .keep, ∅⟩) } }]⟩
  addedChanges := .singleton zeroAddress (.update ⟨.keep, .set ⟨[1]⟩, ∅⟩)

/-- An update of `zeroAddress` that keeps everything, over an empty ledger
and an empty history. -/
def updateOfAbsentExample : SpeculativeLedger where
  finalLedger := fun _ => none
  activeHistory := ⟨[]⟩
  addedChanges := .singleton zeroAddress (.update default)

end SpeculativeLedger

/-! ### Transfers -/

namespace SpeculativeLedger

/-- The first half of `SpeculativeLedger::transfer_coins`: the changes that
debit the sender, if any (checked). -/
def debitChanges (self : SpeculativeLedger) (fromAddr : Option Address) (amount : Amount) :
    Except ExecutionError LedgerChanges :=
  match fromAddr with
  | some fromAddr =>
    match self.getBalance fromAddr with
    | none => .error (.spendingAddressNotFound fromAddr)
    | some balance =>
      match balance.checkedSub amount with
      | none => .error (.insufficientBalance amount fromAddr balance)
      | some newBalance => .ok ((∅ : LedgerChanges).setBalance fromAddr newBalance)
  | none => .ok ∅

/-- The second half of `SpeculativeLedger::transfer_coins`: credit the
receiver, if any (checked), creating it from part of the coins when it does
not exist.  `ledgerEntryBaseCost` is
`storage_costs_constants.ledger_entry_base_cost`. -/
def creditChanges (self : SpeculativeLedger) (ledgerEntryBaseCost : Amount)
    (changes : LedgerChanges) (toAddr : Option Address) (amount : Amount) :
    Except ExecutionError LedgerChanges :=
  match toAddr with
  | some toAddr =>
    -- `to_addr` can be the sender, whose new balance is in `changes`
    match changes.getBalanceOrElse toAddr (self.getBalance toAddr) with
    | some oldBalance =>
      match oldBalance.checkedAdd amount with
      | none => .error (.creditOverflow toAddr oldBalance amount)
      | some newBalance => .ok (changes.setBalance toAddr newBalance)
    | none =>
      match amount.checkedSub ledgerEntryBaseCost with
      | some remainingCoins => .ok ((changes.createAddress toAddr).setBalance toAddr remainingCoins)
      | none => .error (.insufficientAmountToCreate amount toAddr)
  | none => .ok changes

/-- `SpeculativeLedger::transfer_coins`: the changes are applied to the added
changes only when both halves succeed. -/
def transferCoins (self : SpeculativeLedger) (ledgerEntryBaseCost : Amount)
    (fromAddr toAddr : Option Address) (amount : Amount) :
    Except ExecutionError SpeculativeLedger := do
  let changes ← self.debitChanges fromAddr amount
  let changes ← self.creditChanges ledgerEntryBaseCost changes toAddr amount
  pure { self with addedChanges := self.addedChanges.apply changes }

/-- The debit of a sender succeeds only when its balance covers the amount,
and then only sets its new balance. -/
theorem debitChanges_eq_ok {self : SpeculativeLedger} {addr : Address} {amount : Amount}
    {changes : LedgerChanges} (h : self.debitChanges (some addr) amount = .ok changes) :
    ∃ balance newBalance, self.getBalance addr = some balance ∧
      balance.checkedSub amount = some newBalance ∧
      changes = (∅ : LedgerChanges).setBalance addr newBalance := by
  simp only [debitChanges] at h
  split at h
  · cases h
  · split at h
    · cases h
    · cases h
      exact ⟨_, _, ‹_›, ‹_›, rfl⟩

/-- **A debit.**  A transfer from `addr` to nowhere succeeds only when `addr`
has a balance of at least the amount, and leaves it the difference. -/
theorem getBalance_transferCoins_debit {self next : SpeculativeLedger}
    {ledgerEntryBaseCost : Amount} {addr : Address} {amount : Amount}
    (h : self.transferCoins ledgerEntryBaseCost (some addr) none amount = .ok next) :
    ∃ balance, self.getBalance addr = some balance ∧
      amount.raw.toNat ≤ balance.raw.toNat ∧
      ∃ newBalance, next.getBalance addr = some newBalance ∧
        newBalance.raw.toNat = balance.raw.toNat - amount.raw.toNat := by
  rw [transferCoins] at h
  cases hdebit : self.debitChanges (some addr) amount with
  | error e =>
    rw [hdebit] at h
    cases h
  | ok changes =>
    -- no receiver: the credit half returns the changes as they are
    rw [hdebit, Except.ok_bind,
      show self.creditChanges ledgerEntryBaseCost changes none amount = .ok changes from rfl,
      Except.ok_bind] at h
    cases h
    obtain ⟨balance, newBalance, hbalance, hsub, rfl⟩ := debitChanges_eq_ok hdebit
    obtain ⟨hle, hnew⟩ := Amount.checkedSub_eq_some hsub
    exact ⟨balance, hbalance, hle, newBalance,
      LedgerChanges.getBalanceOrElse_apply_setBalance _ _ _ _, hnew⟩

end SpeculativeLedger

end Massa
