import Massa.ExecutedOps.Changes
import Massa.Lib.Lists

/-!
# The final records of replay protection (`executed_ops.rs`, `executed_denunciations.rs`)

When a slot becomes final, the operations and denunciations its execution
recorded are written to the state column, indexed by slot, and the records
that can no longer be replayed are pruned.  The state column's entries of
each record are modelled as `stored`, which `contains` reads; the batch is
committed with the rest of the final state, so a finalisation is a function
of the records.

An operation is indexed under the slot of its change (the code passes
`(expire_period, thread)`), and pruned once that slot is below the cutoff
`(slot.period - keep_executed_history_extra_periods, slot.thread)` of the
finalised slot.  A denunciation is indexed under its own slot and pruned once
it is expired at the finalised slot, the extra periods included.

`IndexedBy` and `Indexed` say what the index holds; with them,
`contains_applyChangesToBatch` says that a finalisation keeps every record it
is given or already has, except those whose slot the index puts behind the
finalised slot.
-/

namespace Massa

/-! ### Executed operations -/

/-- `ExecutedOpsConfig`, the field the pruning reads. -/
structure ExecutedOpsConfig where
  keepExecutedHistoryExtraPeriods : UInt64

/-- `ExecutedOps`.  `stored` stands for the entries under
`EXECUTED_OPS_PREFIX` of the state column: status and slot by operation. -/
structure ExecutedOps where
  config : ExecutedOpsConfig
  sortedOps : SortedMap Slot (List OperationId)
  opExecStatus : SortedMap OperationId Bool
  stored : SortedMap OperationId (Bool × Slot)

namespace ExecutedOps

/-- `ExecutedOps::contains`: the state column has an entry for the id. -/
def contains (self : ExecutedOps) (opId : OperationId) : Bool :=
  self.stored.contains opId

/-- `put_entry`. -/
def putEntry (self : ExecutedOps) (opId : OperationId) (value : Bool × Slot) : ExecutedOps :=
  { self with stored := self.stored.insert opId value }

/-- `delete_entry`. -/
def deleteEntry (self : ExecutedOps) (opId : OperationId) : ExecutedOps :=
  { self with stored := self.stored.erase opId }

/-- One turn of the indexing loop of `apply_changes_to_batch`: the id joins
the set of its slot (`and_modify` / `or_insert_with`) and its status is kept. -/
def indexOp (self : ExecutedOps) (opId : OperationId) (value : Bool × Slot) : ExecutedOps :=
  { self with
    sortedOps := self.sortedOps.insert value.2 (((self.sortedOps.get? value.2).getD []).insert opId)
    opExecStatus := self.opExecStatus.insert opId value.1 }

/-- The ids of the slots below `cutoffSlot`, which `prune_to_batch` drops. -/
def removedIds (self : ExecutedOps) (cutoffSlot : Slot) : List OperationId :=
  (self.sortedOps.filter fun s _ => s < cutoffSlot).entries.flatMap Prod.snd

/-- The body of the loop over the removed ids in `prune_to_batch`. -/
def forgetOp (self : ExecutedOps) (opId : OperationId) : ExecutedOps :=
  { self.deleteEntry opId with opExecStatus := self.opExecStatus.erase opId }

/-- `prune_to_batch`. -/
def pruneToBatch (self : ExecutedOps) (slot : Slot) : ExecutedOps :=
  match checkedSub slot.period self.config.keepExecutedHistoryExtraPeriods with
  | none => self
  | some cutoffPeriod =>
    let cutoffSlot := Slot.new cutoffPeriod slot.thread
    -- `split_off(&cutoff_slot)` keeps the slots from the cutoff on
    (self.removedIds cutoffSlot).foldl forgetOp
      { self with sortedOps := self.sortedOps.filter fun s _ => cutoffSlot ≤ s }

/-- `apply_changes_to_batch`: write every change, index it, then prune. -/
def applyChangesToBatch (self : ExecutedOps) (changes : ExecutedOpsChanges) (slot : Slot) :
    ExecutedOps :=
  let written := changes.entries.foldl (fun acc e => acc.putEntry e.1 e.2) self
  let indexed := changes.entries.foldl (fun acc e => acc.indexOp e.1 e.2) written
  indexed.pruneToBatch slot

/-- The ids that `pruneToBatch self slot` removes. -/
def prunedIds (self : ExecutedOps) (slot : Slot) : List OperationId :=
  match checkedSub slot.period self.config.keepExecutedHistoryExtraPeriods with
  | none => []
  | some cutoffPeriod => self.removedIds (Slot.new cutoffPeriod slot.thread)

/-- Every id of the index satisfies `P` with the slot it is indexed under. -/
def IndexedBy (P : OperationId → Slot → Prop) (self : ExecutedOps) : Prop :=
  ∀ s ids, self.sortedOps.get? s = some ids → ∀ opId ∈ ids, P opId s

section Lemmas

variable {P : OperationId → Slot → Prop}

theorem stored_foldl_putEntry (self : ExecutedOps) (changes : ExecutedOpsChanges) :
    (changes.entries.foldl (fun acc e => acc.putEntry e.1 e.2) self).stored =
      self.stored.extend changes :=
  (List.foldl_hom stored fun _ _ => rfl).symm

theorem stored_foldl_indexOp (self : ExecutedOps) (l : List (OperationId × (Bool × Slot))) :
    (l.foldl (fun acc e => acc.indexOp e.1 e.2) self).stored = self.stored :=
  List.apply_foldl_of_forall stored (g := fun acc e => acc.indexOp e.1 e.2) (fun _ _ => rfl) l self

theorem stored_foldl_forgetOp (self : ExecutedOps) (l : List OperationId) :
    (l.foldl forgetOp self).stored = l.foldl (fun st opId => st.erase opId) self.stored :=
  (List.foldl_hom stored fun _ _ => rfl).symm

/-- After pruning, the pruned ids read nothing and the others are untouched. -/
theorem get?_stored_pruneToBatch (self : ExecutedOps) (slot : Slot) (q : OperationId) :
    (self.pruneToBatch slot).stored.get? q =
      if q ∈ self.prunedIds slot then none else self.stored.get? q := by
  unfold pruneToBatch prunedIds
  split
  · simp
  · rw [stored_foldl_forgetOp, SortedMap.get?_foldl_erase]
    split_ifs <;> rfl

theorem contains_pruneToBatch (self : ExecutedOps) (slot : Slot) (q : OperationId)
    (hq : q ∉ self.prunedIds slot) : (self.pruneToBatch slot).contains q = self.contains q := by
  rw [contains, contains, SortedMap.contains, SortedMap.contains, get?_stored_pruneToBatch,
    if_neg hq]

/-- The cutoff slot is not after the finalised slot. -/
theorem cutoff_le {slot : Slot} {extra cutoffPeriod : UInt64}
    (h : checkedSub slot.period extra = some cutoffPeriod) :
    Slot.new cutoffPeriod slot.thread ≤ slot := by
  unfold checkedSub at h
  split at h
  · next hle =>
    cases h
    have hsub : (slot.period - extra).toNat = slot.period.toNat - extra.toNat :=
      UInt64.toNat_sub_of_le _ _ hle
    rw [Slot.le_iff]
    simp only [Slot.new]
    omega
  · cases h

/-- A pruned id is indexed under a slot before the finalised one. -/
theorem exists_slot_lt_of_mem_prunedIds {self : ExecutedOps} {slot : Slot} {q : OperationId}
    (hq : q ∈ self.prunedIds slot) :
    ∃ s ids, self.sortedOps.get? s = some ids ∧ q ∈ ids ∧ s < slot := by
  unfold prunedIds at hq
  split at hq
  · cases hq
  · next cutoffPeriod hcut =>
    obtain ⟨⟨s, ids⟩, hmem, hq⟩ := List.mem_flatMap.mp hq
    have hget := (SortedMap.mem_entries_iff _ s ids).mp hmem
    rw [SortedMap.get?_filter] at hget
    obtain ⟨hget, hlt⟩ := Option.filter_eq_some_iff.mp hget
    exact ⟨s, ids, hget, hq, lt_of_lt_of_le (of_decide_eq_true hlt) (cutoff_le hcut)⟩

theorem IndexedBy.indexOp {self : ExecutedOps} (h : self.IndexedBy P) {opId : OperationId}
    {value : Bool × Slot} (hp : P opId value.2) : (self.indexOp opId value).IndexedBy P := by
  intro s ids hget q hq
  simp only [ExecutedOps.indexOp, SortedMap.get?_insert] at hget
  split at hget
  · next hs =>
    cases hget
    subst hs
    rcases List.mem_insert_iff.mp hq with rfl | hq
    · exact hp
    · cases hold : self.sortedOps.get? value.2 with
      | none => simp [hold] at hq
      | some old => exact h _ old hold q (by simpa [hold] using hq)
  · exact h s ids hget q hq

theorem IndexedBy.foldl_indexOp {self : ExecutedOps} (h : self.IndexedBy P)
    {l : List (OperationId × (Bool × Slot))} (hl : ∀ e ∈ l, P e.1 e.2.2) :
    (l.foldl (fun acc e => acc.indexOp e.1 e.2) self).IndexedBy P := by
  induction l generalizing self with
  | nil => exact h
  | cons e rest ih =>
    exact ih (h.indexOp (hl e List.mem_cons_self))
      fun e' he' => hl e' (List.mem_cons_of_mem _ he')

theorem IndexedBy.pruneToBatch {self : ExecutedOps} (h : self.IndexedBy P) (slot : Slot) :
    (self.pruneToBatch slot).IndexedBy P := by
  unfold ExecutedOps.pruneToBatch
  split
  · exact h
  · next cutoffPeriod _ =>
    -- the loop forgets statuses and entries; the index is the filtered one
    intro s ids hget q hq
    rw [List.apply_foldl_of_forall sortedOps (g := forgetOp) (fun _ _ => rfl),
      SortedMap.get?_filter] at hget
    exact h s ids (Option.filter_eq_some_iff.mp hget).1 q hq

/-- The index a finalisation builds from an index and changes that satisfy
`P`, satisfies `P`. -/
theorem IndexedBy.applyChangesToBatch {self : ExecutedOps} (h : self.IndexedBy P)
    {changes : ExecutedOpsChanges} (hchanges : ∀ opId v, changes.get? opId = some v → P opId v.2)
    (slot : Slot) : (self.applyChangesToBatch changes slot).IndexedBy P := by
  have hl : ∀ e ∈ changes.entries, P e.1 e.2.2 := fun e he =>
    hchanges e.1 e.2 ((SortedMap.mem_entries_iff _ _ _).mp he)
  -- writing the entries leaves the index as it is
  have hw : (changes.entries.foldl (fun acc e => acc.putEntry e.1 e.2) self).IndexedBy P := by
    intro s ids hget
    rw [List.apply_foldl_of_forall sortedOps (g := fun acc (e : OperationId × (Bool × Slot)) =>
      acc.putEntry e.1 e.2) (fun _ _ => rfl)] at hget
    exact h s ids hget
  exact (hw.foldl_indexOp hl).pruneToBatch slot

/-- **What a finalisation keeps.**  An operation recorded before, or in the
changes of the finalised slot, is still recorded after it, unless its slot is
before the finalised one; `P` is what the index says of the slots. -/
theorem contains_applyChangesToBatch {self : ExecutedOps} (h : self.IndexedBy P)
    {changes : ExecutedOpsChanges} (hchanges : ∀ opId v, changes.get? opId = some v → P opId v.2)
    (slot : Slot) {q : OperationId} (hq : self.contains q ∨ changes.contains q) :
    (self.applyChangesToBatch changes slot).contains q = true ∨ ∃ s, P q s ∧ s < slot := by
  have hl : ∀ e ∈ changes.entries, P e.1 e.2.2 := fun e he =>
    hchanges e.1 e.2 ((SortedMap.mem_entries_iff _ _ _).mp he)
  set written := changes.entries.foldl (fun acc e => acc.putEntry e.1 e.2) self
  set indexed := changes.entries.foldl (fun acc e => acc.indexOp e.1 e.2) written
  have hw : written.IndexedBy P := by
    intro s ids hget
    rw [List.apply_foldl_of_forall sortedOps (g := fun acc (e : OperationId × (Bool × Slot)) =>
      acc.putEntry e.1 e.2) (fun _ _ => rfl)] at hget
    exact h s ids hget
  have hidx : indexed.IndexedBy P := hw.foldl_indexOp hl
  -- before pruning, the id is recorded
  have hcontains : indexed.contains q = true := by
    rw [contains, stored_foldl_indexOp, stored_foldl_putEntry, SortedMap.contains_extend]
    simpa [contains] using hq
  by_cases hpruned : q ∈ indexed.prunedIds slot
  · obtain ⟨s, ids, hget, hmem, hlt⟩ := exists_slot_lt_of_mem_prunedIds hpruned
    exact .inr ⟨s, hidx s ids hget q hmem, hlt⟩
  · left
    show (indexed.pruneToBatch slot).contains q = true
    rw [contains_pruneToBatch _ _ _ hpruned, hcontains]

end Lemmas

end ExecutedOps

/-! ### Executed denunciations -/

/-- `ExecutedDenunciationsConfig`, the fields the pruning reads. -/
structure ExecutedDenunciationsConfig where
  denunciationExpirePeriods : UInt64
  keepExecutedHistoryExtraPeriods : UInt64

/-- `ExecutedDenunciations`.  `stored` stands for the entries under
`EXECUTED_DENUNCIATIONS_PREFIX` of the state column. -/
structure ExecutedDenunciations where
  config : ExecutedDenunciationsConfig
  sortedDenunciations : SortedMap Slot (List DenunciationIndex)
  stored : List DenunciationIndex

namespace ExecutedDenunciations

/-- `ExecutedDenunciations::contains`. -/
def contains (self : ExecutedDenunciations) (deIdx : DenunciationIndex) : Bool :=
  deIdx ∈ self.stored

/-- `put_entry`. -/
def putEntry (self : ExecutedDenunciations) (deIdx : DenunciationIndex) : ExecutedDenunciations :=
  { self with stored := self.stored.insert deIdx }

/-- `delete_entry`. -/
def deleteEntry (self : ExecutedDenunciations) (deIdx : DenunciationIndex) :
    ExecutedDenunciations :=
  { self with stored := self.stored.filter fun d => d ≠ deIdx }

/-- The index update of `apply_changes_to_batch`, under the denunciation's
own slot. -/
def indexDenunciation (self : ExecutedDenunciations) (deIdx : DenunciationIndex) :
    ExecutedDenunciations :=
  { self with
    sortedDenunciations := self.sortedDenunciations.insert deIdx.getSlot
      (((self.sortedDenunciations.get? deIdx.getSlot).getD []).insert deIdx) }

/-- `denunciation_expire_periods.saturating_add(keep_executed_history_extra_periods)`. -/
def effectiveExpiryPeriods (self : ExecutedDenunciations) : UInt64 :=
  saturatingAdd self.config.denunciationExpirePeriods self.config.keepExecutedHistoryExtraPeriods

/-- The denunciations of the slots expired at `slot`, which the `retain` of
`prune_to_batch` drains. -/
def drained (self : ExecutedDenunciations) (slot : Slot) : List DenunciationIndex :=
  (self.sortedDenunciations.filter fun s _ =>
    Denunciation.isExpired s.period slot.period self.effectiveExpiryPeriods).entries.flatMap Prod.snd

/-- `prune_to_batch`. -/
def pruneToBatch (self : ExecutedDenunciations) (slot : Slot) : ExecutedDenunciations :=
  (self.drained slot).foldl deleteEntry
    { self with
      sortedDenunciations := self.sortedDenunciations.filter fun s _ =>
        !Denunciation.isExpired s.period slot.period self.effectiveExpiryPeriods }

/-- `apply_changes_to_batch`. -/
def applyChangesToBatch (self : ExecutedDenunciations) (changes : ExecutedDenunciationsChanges)
    (slot : Slot) : ExecutedDenunciations :=
  (changes.foldl (fun acc deIdx => (acc.putEntry deIdx).indexDenunciation deIdx) self).pruneToBatch
    slot

/-- Every denunciation of the index is under its own slot. -/
def Indexed (self : ExecutedDenunciations) : Prop :=
  ∀ s des, self.sortedDenunciations.get? s = some des → ∀ deIdx ∈ des, deIdx.getSlot = s

theorem config_foldl_insert (self : ExecutedDenunciations) (changes : ExecutedDenunciationsChanges) :
    (changes.foldl (fun acc deIdx => (acc.putEntry deIdx).indexDenunciation deIdx) self).config =
      self.config :=
  List.apply_foldl_of_forall config
    (g := fun acc deIdx => (acc.putEntry deIdx).indexDenunciation deIdx) (fun _ _ => rfl) changes self

theorem mem_stored_foldl_insert (self : ExecutedDenunciations)
    (changes : ExecutedDenunciationsChanges) (q : DenunciationIndex) :
    q ∈ (changes.foldl (fun acc deIdx => (acc.putEntry deIdx).indexDenunciation deIdx)
      self).stored ↔ q ∈ self.stored ∨ q ∈ changes := by
  induction changes generalizing self with
  | nil => simp
  | cons d rest ih =>
    rw [List.foldl_cons, ih]
    simp only [indexDenunciation, putEntry, List.mem_insert_iff, List.mem_cons]
    tauto

theorem Indexed.foldl_insert {self : ExecutedDenunciations} (h : self.Indexed)
    (changes : ExecutedDenunciationsChanges) :
    (changes.foldl (fun acc deIdx => (acc.putEntry deIdx).indexDenunciation deIdx) self).Indexed := by
  induction changes generalizing self with
  | nil => exact h
  | cons d rest ih =>
    apply ih
    intro s des hget q hq
    simp only [indexDenunciation, putEntry, SortedMap.get?_insert] at hget
    split at hget
    · next hs =>
      cases hget
      subst hs
      rcases List.mem_insert_iff.mp hq with rfl | hq
      · rfl
      · cases hold : self.sortedDenunciations.get? d.getSlot with
        | none => simp [hold] at hq
        | some old => exact h _ old hold q (by simpa [hold] using hq)
    · exact h s des hget q hq

theorem Indexed.pruneToBatch {self : ExecutedDenunciations} (h : self.Indexed) (slot : Slot) :
    (self.pruneToBatch slot).Indexed := by
  intro s des hget q hq
  unfold ExecutedDenunciations.pruneToBatch at hget
  rw [List.apply_foldl_of_forall sortedDenunciations (g := deleteEntry) (fun _ _ => rfl),
    SortedMap.get?_filter] at hget
  exact h s des (Option.filter_eq_some_iff.mp hget).1 q hq

theorem Indexed.applyChangesToBatch {self : ExecutedDenunciations} (h : self.Indexed)
    (changes : ExecutedDenunciationsChanges) (slot : Slot) :
    (self.applyChangesToBatch changes slot).Indexed :=
  (h.foldl_insert changes).pruneToBatch slot

theorem effectiveExpiryPeriods_applyChangesToBatch (self : ExecutedDenunciations)
    (changes : ExecutedDenunciationsChanges) (slot : Slot) :
    (self.applyChangesToBatch changes slot).effectiveExpiryPeriods = self.effectiveExpiryPeriods := by
  have hprune : ∀ d : ExecutedDenunciations, (d.pruneToBatch slot).config = d.config := fun d =>
    List.apply_foldl_of_forall config (g := deleteEntry) (fun _ _ => rfl) _ _
  rw [effectiveExpiryPeriods, effectiveExpiryPeriods, applyChangesToBatch, hprune,
    config_foldl_insert]

/-- A drained denunciation of a well-indexed record is expired at the slot. -/
theorem isExpired_of_mem_drained {self : ExecutedDenunciations} (h : self.Indexed) {slot : Slot}
    {q : DenunciationIndex} (hq : q ∈ self.drained slot) :
    Denunciation.isExpired q.getSlot.period slot.period self.effectiveExpiryPeriods = true := by
  obtain ⟨⟨s, des⟩, hmem, hq⟩ := List.mem_flatMap.mp hq
  have hget := (SortedMap.mem_entries_iff _ s des).mp hmem
  rw [SortedMap.get?_filter] at hget
  obtain ⟨hget, hexp⟩ := Option.filter_eq_some_iff.mp hget
  rw [h s des hget q hq]
  exact hexp

theorem stored_foldl_deleteEntry (self : ExecutedDenunciations) (l : List DenunciationIndex) :
    (l.foldl deleteEntry self).stored = self.stored.filter fun d => d ∉ l := by
  induction l generalizing self with
  | nil => simp
  | cons d rest ih =>
    rw [List.foldl_cons, ih, deleteEntry, List.filter_filter]
    congr 1
    funext x
    simp only [List.mem_cons, not_or, Bool.decide_and, decide_not, Bool.and_comm]

theorem mem_stored_pruneToBatch (self : ExecutedDenunciations) (slot : Slot)
    (q : DenunciationIndex) :
    q ∈ (self.pruneToBatch slot).stored ↔ q ∈ self.stored ∧ q ∉ self.drained slot := by
  rw [pruneToBatch, stored_foldl_deleteEntry, List.mem_filter, decide_eq_true_iff]

/-- **What a finalisation keeps.**  A denunciation recorded before, or in the
changes of the finalised slot, is still recorded after it unless it is expired
at the finalised slot, extra periods included. -/
theorem contains_applyChangesToBatch {self : ExecutedDenunciations} (h : self.Indexed)
    (changes : ExecutedDenunciationsChanges) (slot : Slot) {q : DenunciationIndex}
    (hq : self.contains q ∨ q ∈ changes) :
    (self.applyChangesToBatch changes slot).contains q = true ∨
      Denunciation.isExpired q.getSlot.period slot.period self.effectiveExpiryPeriods = true := by
  set inserted := changes.foldl (fun acc deIdx => (acc.putEntry deIdx).indexDenunciation deIdx) self
  have hconfig : inserted.effectiveExpiryPeriods = self.effectiveExpiryPeriods := by
    rw [effectiveExpiryPeriods, effectiveExpiryPeriods, config_foldl_insert]
  by_cases hdrained : q ∈ inserted.drained slot
  · right
    rw [← hconfig]
    exact isExpired_of_mem_drained (h.foldl_insert changes) hdrained
  · left
    have hmem : q ∈ inserted.stored := by
      rw [mem_stored_foldl_insert]
      simpa [contains] using hq
    show decide (q ∈ (inserted.pruneToBatch slot).stored) = true
    rw [decide_eq_true_iff, mem_stored_pruneToBatch]
    exact ⟨hmem, hdrained⟩

end ExecutedDenunciations

end Massa
