import Massa.Lib.SortedMap
import Massa.Models.Slot
import Mathlib

/-!
# Block statuses and their indexes (`massa-consensus-worker/src/state/blocks_state.rs`)

Consensus keeps the status of every block it knows (`BlocksState`): a map
from block ids to `BlockStatus`, one index set per kind of status, and a
sequence counter that numbers the blocks waiting for dependencies and the
discarded ones, so that the oldest can be dropped first.  Every change of a
status goes through `transition_map`: the old status leaves the map and its
index, a callback returns the new status (and may change the other statuses
in the map it is given), and the new status enters the map and its index
after the transition table has numbered it.  A block that comes to wait for
dependencies has its whole tree of waiting dependencies renumbered after
every number given so far (`promote_dep_tree`).

The model keeps of a status what `BlocksState` reads: its kind, the slot and
the unsatisfied dependencies of a block waiting for dependencies, and the
sequence numbers.  Block ids are any linearly ordered type; a hash set is
iterated in the order of its ids.

The results are over whole runs of `transition_map` from `new`: the indexes
hold exactly the blocks of their kinds (`Reachable.indexesConsistent`), and
no two blocks share a sequence number, none above the counter
(`NumberedRun.numbersFresh`).  Under them, `promote_dep_tree` renumbers
exactly the dependency tree, in its order (`promoteDepTree_spec`).
-/

namespace Massa

/-- `BlockStatusId`. -/
inductive BlockStatusId where
  | incoming
  | waitingForSlot
  | waitingForDependencies
  | active
  | discarded
  deriving DecidableEq, Repr

/-- `BlockStatus`, with the data that `BlocksState` reads: the slot of the
header or block of a block waiting for dependencies (`get_slot`), its
unsatisfied dependencies, and the sequence numbers. -/
inductive BlockStatus (ι : Type) where
  | incoming
  | waitingForSlot
  | waitingForDependencies (slot : Slot) (unsatisfiedDependencies : Finset ι)
      (sequenceNumber : UInt64)
  | active
  | discarded (sequenceNumber : UInt64)
  deriving DecidableEq

namespace BlockStatus

variable {ι : Type}

/-- `BlockStatusId::from`. -/
def id : BlockStatus ι → BlockStatusId
  | .incoming => .incoming
  | .waitingForSlot => .waitingForSlot
  | .waitingForDependencies .. => .waitingForDependencies
  | .active => .active
  | .discarded .. => .discarded

/-- The sequence number of a block waiting for dependencies or discarded. -/
def sequenceNumber? : BlockStatus ι → Option UInt64
  | .waitingForDependencies _ _ n => some n
  | .discarded n => some n
  | _ => none

/-- `*sequence_number = self.sequence_counter` on a status whose kind has a
number. -/
def setSequenceNumber : BlockStatus ι → UInt64 → BlockStatus ι
  | .waitingForDependencies slot deps _, n => .waitingForDependencies slot deps n
  | .discarded _, n => .discarded n
  | s, _ => s

@[simp] theorem id_setSequenceNumber (s : BlockStatus ι) (n : UInt64) :
    (s.setSequenceNumber n).id = s.id := by
  cases s <;> rfl

@[simp] theorem sequenceNumber?_setSequenceNumber (s : BlockStatus ι) (n : UInt64) :
    (s.setSequenceNumber n).sequenceNumber? = s.sequenceNumber?.map fun _ => n := by
  cases s <;> rfl

theorem sequenceNumber?_eq_none_iff (s : BlockStatus ι) :
    s.sequenceNumber? = none ↔ s.id ≠ .waitingForDependencies ∧ s.id ≠ .discarded := by
  cases s <;> simp [sequenceNumber?, id]

theorem id_eq_waitingForDependencies_iff (s : BlockStatus ι) :
    s.id = .waitingForDependencies ↔ ∃ slot deps n, s = .waitingForDependencies slot deps n := by
  cases s <;> simp [id]

end BlockStatus

/-- `BlocksState`. -/
structure BlocksState (ι : Type) [LinearOrder ι] where
  blockStatuses : SortedMap ι (BlockStatus ι)
  incomingIndex : Finset ι
  sequenceCounter : UInt64
  waitingForSlotIndex : Finset ι
  waitingForDependenciesIndex : Finset ι
  discardedIndex : Finset ι
  activeIndex : Finset ι

/-- The panics of `transition_map`, with the values their messages format:
"Invalid transition from {:?} to {:?} for block {}", and from `None` for a
block that was not there. -/
inductive TransitionError (ι : Type) where
  | invalidTransition (old : Option BlockStatusId) (new : BlockStatusId) (blockId : ι)

namespace BlocksState

variable {ι : Type} [LinearOrder ι]

/-- `BlocksState::new`. -/
def new : BlocksState ι := ⟨∅, ∅, 0, ∅, ∅, ∅, ∅⟩

/-- The index of the blocks of a kind. -/
def index (self : BlocksState ι) : BlockStatusId → Finset ι
  | .incoming => self.incomingIndex
  | .waitingForSlot => self.waitingForSlotIndex
  | .waitingForDependencies => self.waitingForDependenciesIndex
  | .active => self.activeIndex
  | .discarded => self.discardedIndex

/-- The index of a kind, changed by `f`: one arm of `update_indexes`. -/
def modifyIndex (self : BlocksState ι) (k : BlockStatusId) (f : Finset ι → Finset ι) :
    BlocksState ι :=
  match k with
  | .incoming => { self with incomingIndex := f self.incomingIndex }
  | .waitingForSlot => { self with waitingForSlotIndex := f self.waitingForSlotIndex }
  | .waitingForDependencies =>
    { self with waitingForDependenciesIndex := f self.waitingForDependenciesIndex }
  | .active => { self with activeIndex := f self.activeIndex }
  | .discarded => { self with discardedIndex := f self.discardedIndex }

/-- `BlocksState::update_indexes`: the block leaves the index of its old kind
and enters the index of its new one. -/
def updateIndexes (self : BlocksState ι) (blockId : ι)
    (oldBlockStatus newBlockStatus : Option BlockStatusId) : BlocksState ι :=
  let self := match oldBlockStatus with
    | some k => self.modifyIndex k (·.erase blockId)
    | none => self
  match newBlockStatus with
  | some k => self.modifyIndex k (insert blockId)
  | none => self

/-- The blocks of the map that `to_promote` does not hold yet: the measure of
the exploration loop. -/
def unpromoted (statuses : SortedMap ι (BlockStatus ι)) (toPromote : SortedMap ι (Slot × UInt64)) :
    Finset ι :=
  statuses.keys.filter fun k => toPromote.get? k = none

theorem card_unpromoted_insert_lt {statuses : SortedMap ι (BlockStatus ι)}
    {toPromote : SortedMap ι (Slot × UInt64)} {h : ι} {s : BlockStatus ι}
    (hget : statuses.get? h = some s) (hnew : toPromote.get? h = none) (x : Slot × UInt64) :
    (unpromoted statuses (toPromote.insert h x)).card < (unpromoted statuses toPromote).card := by
  apply Finset.card_lt_card
  rw [Finset.ssubset_iff_of_subset]
  · refine ⟨h, ?_, ?_⟩
    · rw [unpromoted, Finset.mem_filter, SortedMap.mem_keys, hget]
      exact ⟨rfl, hnew⟩
    · simp [unpromoted]
  · intro k hk
    simp only [unpromoted, Finset.mem_filter, SortedMap.get?_insert] at hk ⊢
    split_ifs at hk with hkh
    · exact absurd hk.2 (by simp)
    · exact hk

/-- The `while let Some(h) = to_explore.pop()` loop of `promote_dep_tree`:
each block waiting for dependencies that it meets enters `to_promote` with
its slot and sequence number, and its dependencies are pushed.  The stack
has its top first; `extend` pushes the dependencies in their order, so the
last one is on top. -/
def exploreDepTree (statuses : SortedMap ι (BlockStatus ι)) :
    List ι → SortedMap ι (Slot × UInt64) → SortedMap ι (Slot × UInt64)
  | [], toPromote => toPromote
  | h :: toExplore, toPromote =>
    if hnew : toPromote.get? h = none then
      match hget : statuses.get? h with
      | some (.waitingForDependencies slot deps seq) =>
        exploreDepTree statuses ((deps.sort (· ≤ ·)).reverse ++ toExplore)
          (toPromote.insert h (slot, seq))
      | _ => exploreDepTree statuses toExplore toPromote
    else exploreDepTree statuses toExplore toPromote
termination_by toExplore toPromote => ((unpromoted statuses toPromote).card, toExplore.length)
decreasing_by
  · exact Prod.Lex.left _ _ (card_unpromoted_insert_lt hget hnew _)
  · exact Prod.Lex.right _ (by simp)
  · exact Prod.Lex.right _ (by simp)


/-- The order of `to_promote` after `collect`: the tuples `(slot, seq, id)`,
compared as tuples. -/
def promoteKey (e : Slot × UInt64 × ι) : Lex (Slot × Lex (ℕ × ι)) :=
  toLex (e.1, toLex (e.2.1.toNat, e.2.2))

/-- The `for` loop of `promote_dep_tree`: each block, still waiting for
dependencies, takes the next sequence number. -/
def renumber (self : BlocksState ι) : List (Slot × UInt64 × ι) → BlocksState ι
  | [] => self
  | (_, _, h) :: rest =>
    let self := match self.blockStatuses.get? h with
      | some (.waitingForDependencies slot deps _) =>
        let counter := self.sequenceCounter + 1
        { self with
          sequenceCounter := counter
          blockStatuses := self.blockStatuses.insert h (.waitingForDependencies slot deps counter) }
      | _ => self
    renumber self rest

/-- `to_promote` collected into `(slot, seq, id)` tuples, sorted
(`sort_unstable`: the ids are distinct, so every sort gives this order). -/
def promoteOrder (toPromote : SortedMap ι (Slot × UInt64)) : List (Slot × UInt64 × ι) :=
  (toPromote.entries.map fun e => (e.2.1, e.2.2, e.1)).mergeSort
    fun a b => decide (promoteKey a ≤ promoteKey b)

/-- `BlocksState::promote_dep_tree`: the blocks waiting for dependencies that
the block reaches through unsatisfied dependencies, itself included, take
new sequence numbers in the order of their slots and old numbers. -/
def promoteDepTree (self : BlocksState ι) (hash : ι) : BlocksState ι :=
  self.renumber (promoteOrder (exploreDepTree self.blockStatuses [hash] ∅))

/-- The new status enters the map, with the next sequence number:
`self.sequence_counter += 1; *sequence_number = self.sequence_counter`. -/
def insertNumbered (self : BlocksState ι) (blockId : ι) (newState : BlockStatus ι) :
    BlocksState ι :=
  let counter := self.sequenceCounter + 1
  { self with
    sequenceCounter := counter
    blockStatuses := self.blockStatuses.insert blockId (newState.setSequenceNumber counter) }

/-- The new status enters the map as the callback returned it. -/
def insertStatus (self : BlocksState ι) (blockId : ι) (newState : BlockStatus ι) :
    BlocksState ι :=
  { self with blockStatuses := self.blockStatuses.insert blockId newState }

/-- The transition table of `transition_map`, from the old kind to the kind of
the status the callback returned; every other pair panics. -/
def applyTransition (self : BlocksState ι) (blockId : ι) (newState : BlockStatus ι) :
    BlockStatusId → BlockStatusId → Except (TransitionError ι) (BlocksState ι)
  -- from incoming status
  | .incoming, .waitingForDependencies =>
    .ok ((self.insertNumbered blockId newState).promoteDepTree blockId)
  | .incoming, .discarded => .ok (self.insertNumbered blockId newState)
  | .incoming, _ => .ok (self.insertStatus blockId newState)
  -- from waiting for slot status
  | .waitingForSlot, .incoming => .ok (self.insertStatus blockId newState)
  | .waitingForSlot, .discarded => .ok (self.insertNumbered blockId newState)
  | .waitingForSlot, .waitingForSlot => .ok (self.insertStatus blockId newState)
  -- from waiting for dependencies status
  | .waitingForDependencies, .incoming => .ok (self.insertStatus blockId newState)
  | .waitingForDependencies, .discarded => .ok (self.insertNumbered blockId newState)
  | .waitingForDependencies, .waitingForDependencies =>
    .ok ((self.insertStatus blockId newState).promoteDepTree blockId)
  -- from active status
  | .active, .discarded => .ok (self.insertNumbered blockId newState)
  | .active, .active => .ok (self.insertStatus blockId newState)
  -- from discarded status
  | .discarded, .discarded => .ok (self.insertNumbered blockId newState)
  | old, new => .error (.invalidTransition (some old) new blockId)

/-- A callback of `transition_map`: from the removed status (if any) and the
map of the other statuses, the new status (if any) and the map as the
callback left it. -/
abbrev Callback (ι : Type) [LinearOrder ι] :=
  Option (BlockStatus ι) → SortedMap ι (BlockStatus ι) →
    Option (BlockStatus ι) × SortedMap ι (BlockStatus ι)

/-- Step 1 of `transition_map`: the status leaves the map and the index of
its kind. -/
def removeStatus (self : BlocksState ι) (blockId : ι) (oldStateId : BlockStatusId) :
    BlocksState ι :=
  { self with blockStatuses := self.blockStatuses.erase blockId }.updateIndexes blockId
    (some oldStateId) none

/-- The state with the map of statuses as a callback left it. -/
def withStatuses (self : BlocksState ι) (blockStatuses : SortedMap ι (BlockStatus ι)) :
    BlocksState ι :=
  { self with blockStatuses }

/-- `BlocksState::transition_map`: the status leaves the map and its index,
the callback returns the new one, which the transition table numbers and puts
back, and the index of its kind takes the block.  A block that was not there
may only arrive as incoming or active. -/
def transitionMap (self : BlocksState ι) (blockId : ι) (callback : Callback ι) :
    Except (TransitionError ι) (BlocksState ι) :=
  match self.blockStatuses.get? blockId with
  | some block =>
    let self := self.removeStatus blockId block.id
    match callback (some block) self.blockStatuses with
    | (none, blockStatuses) => .ok (self.withStatuses blockStatuses)
    | (some newState, blockStatuses) => do
      let self ← (self.withStatuses blockStatuses).applyTransition blockId newState block.id
        newState.id
      pure (self.updateIndexes blockId none (some newState.id))
  | none =>
    match callback none self.blockStatuses with
    | (none, blockStatuses) => .ok (self.withStatuses blockStatuses)
    | (some newState, blockStatuses) =>
      if newState.id ≠ .incoming ∧ newState.id ≠ .active then
        .error (.invalidTransition none newState.id blockId)
      else
        .ok (((self.withStatuses blockStatuses).insertStatus blockId newState).updateIndexes blockId
          none (some newState.id))

/-! ### The indexes -/

/-- The kind of the status of a block, if it has one. -/
def kindOf (self : BlocksState ι) (blockId : ι) : Option BlockStatusId :=
  (self.blockStatuses.get? blockId).map BlockStatus.id

/-- Each index holds exactly the blocks whose status has its kind. -/
def IndexesConsistent (self : BlocksState ι) : Prop :=
  ∀ k blockId, blockId ∈ self.index k ↔ self.kindOf blockId = some k

@[simp] theorem index_modifyIndex (self : BlocksState ι) (k k' : BlockStatusId)
    (f : Finset ι → Finset ι) :
    (self.modifyIndex k f).index k' = if k' = k then f (self.index k') else self.index k' := by
  cases k <;> cases k' <;> rfl

@[simp] theorem blockStatuses_modifyIndex (self : BlocksState ι) (k : BlockStatusId)
    (f : Finset ι → Finset ι) : (self.modifyIndex k f).blockStatuses = self.blockStatuses := by
  cases k <;> rfl

@[simp] theorem sequenceCounter_modifyIndex (self : BlocksState ι) (k : BlockStatusId)
    (f : Finset ι → Finset ι) : (self.modifyIndex k f).sequenceCounter = self.sequenceCounter := by
  cases k <;> rfl

theorem index_updateIndexes (self : BlocksState ι) (blockId : ι)
    (old new : Option BlockStatusId) (k : BlockStatusId) :
    (self.updateIndexes blockId old new).index k =
      if new = some k then insert blockId (if old = some k then (self.index k).erase blockId
        else self.index k)
      else if old = some k then (self.index k).erase blockId else self.index k := by
  cases old <;> cases new <;> simp [updateIndexes, eq_comm]

@[simp] theorem blockStatuses_updateIndexes (self : BlocksState ι) (blockId : ι)
    (old new : Option BlockStatusId) :
    (self.updateIndexes blockId old new).blockStatuses = self.blockStatuses := by
  cases old <;> cases new <;> simp [updateIndexes]

@[simp] theorem sequenceCounter_updateIndexes (self : BlocksState ι) (blockId : ι)
    (old new : Option BlockStatusId) :
    (self.updateIndexes blockId old new).sequenceCounter = self.sequenceCounter := by
  cases old <;> cases new <;> simp [updateIndexes]


theorem index_insertStatus (self : BlocksState ι) (blockId : ι) (newState : BlockStatus ι) :
    (self.insertStatus blockId newState).index = self.index := by
  funext k
  cases k <;> rfl

theorem index_insertNumbered (self : BlocksState ι) (blockId : ι) (newState : BlockStatus ι) :
    (self.insertNumbered blockId newState).index = self.index := by
  funext k
  cases k <;> rfl

theorem kindOf_insertStatus (self : BlocksState ι) (blockId : ι) (newState : BlockStatus ι)
    (b : ι) : (self.insertStatus blockId newState).kindOf b =
      if b = blockId then some newState.id else self.kindOf b := by
  simp only [kindOf, insertStatus, SortedMap.get?_insert]
  split_ifs <;> rfl

theorem kindOf_insertNumbered (self : BlocksState ι) (blockId : ι) (newState : BlockStatus ι)
    (b : ι) : (self.insertNumbered blockId newState).kindOf b =
      if b = blockId then some newState.id else self.kindOf b := by
  simp only [kindOf, insertNumbered, SortedMap.get?_insert]
  split_ifs <;> simp

/-- Renumbering changes no kind and no index. -/
theorem renumber_sameKinds (l : List (Slot × UInt64 × ι)) :
    ∀ self : BlocksState ι, (self.renumber l).index = self.index ∧
      ∀ b, (self.renumber l).kindOf b = self.kindOf b := by
  induction l with
  | nil => exact fun self => ⟨rfl, fun b => rfl⟩
  | cons e rest ih =>
    intro self
    obtain ⟨_, _, h⟩ := e
    simp only [renumber]
    split
    · rename_i slot deps seq hget
      obtain ⟨hindex, hkind⟩ := ih _
      refine ⟨hindex.trans ?_, fun b => (hkind b).trans ?_⟩
      · funext k
        cases k <;> rfl
      · -- the block keeps waiting for dependencies
        simp only [kindOf, SortedMap.get?_insert]
        split_ifs with hb
        · rw [hb, hget]
          rfl
        · rfl
    · exact ih _

theorem promoteDepTree_sameKinds (self : BlocksState ι) (hash : ι) :
    (self.promoteDepTree hash).index = self.index ∧
      ∀ b, (self.promoteDepTree hash).kindOf b = self.kindOf b :=
  renumber_sameKinds _ self


/-- **The transition table, by what it does.**  A transition that goes
through puts the new status in as it is, when its kind has no sequence
number; or numbers it; and a block that comes to wait for dependencies has
its dependency tree promoted. -/
theorem applyTransition_cases {self self' : BlocksState ι} {blockId : ι}
    {newState : BlockStatus ι} {old : BlockStatusId}
    (h : self.applyTransition blockId newState old newState.id = .ok self') :
    (self' = self.insertStatus blockId newState ∧ newState.sequenceNumber? = none) ∨
      self' = self.insertNumbered blockId newState ∨
      (self' = (self.insertNumbered blockId newState).promoteDepTree blockId ∧
        newState.id = .waitingForDependencies) ∨
      (self' = (self.insertStatus blockId newState).promoteDepTree blockId ∧
        newState.id = .waitingForDependencies) := by
  rw [BlockStatus.sequenceNumber?_eq_none_iff]
  generalize hid : newState.id = new at h
  cases old <;> cases new <;> simp only [applyTransition, Except.ok.injEq, reduceCtorEq] at h <;>
    subst h <;> simp

/-- **`transition_map`, by what it does.**  Either the block had a status,
which leaves the map and its index, and the callback drops the block or the
table puts its new status in; or it had none, and the callback adds none or
an incoming or active one. -/
theorem transitionMap_cases {self self' : BlocksState ι} {blockId : ι} {callback : Callback ι}
    (h : self.transitionMap blockId callback = .ok self') :
    (∃ block, self.blockStatuses.get? blockId = some block ∧
      let removed := self.removeStatus blockId block.id
      ((callback (some block) removed.blockStatuses).1 = none ∧
        self' = removed.withStatuses (callback (some block) removed.blockStatuses).2 ∨
      ∃ newState mid, (callback (some block) removed.blockStatuses).1 = some newState ∧
        (removed.withStatuses (callback (some block) removed.blockStatuses).2).applyTransition
          blockId newState block.id newState.id = .ok mid ∧
        self' = mid.updateIndexes blockId none (some newState.id))) ∨
    (self.blockStatuses.get? blockId = none ∧
      ((callback none self.blockStatuses).1 = none ∧
        self' = self.withStatuses (callback none self.blockStatuses).2 ∨
      ∃ newState, (callback none self.blockStatuses).1 = some newState ∧
        (newState.id = .incoming ∨ newState.id = .active) ∧
        self' = ((self.withStatuses (callback none self.blockStatuses).2).insertStatus
          blockId newState).updateIndexes blockId none (some newState.id))) := by
  unfold transitionMap at h
  cases hget : self.blockStatuses.get? blockId with
  | some block =>
    rw [hget] at h
    dsimp only at h
    refine .inl ⟨block, rfl, ?_⟩
    dsimp only
    rcases hcall : callback (some block) (self.removeStatus blockId block.id).blockStatuses with
      ⟨_ | newState, statuses⟩
    · rw [hcall] at h
      exact .inl ⟨rfl, (Except.ok.inj h).symm⟩
    · rw [hcall] at h
      dsimp only at h
      cases hmid : ((self.removeStatus blockId block.id).withStatuses statuses).applyTransition
          blockId newState block.id newState.id with
      | error e =>
        rw [hmid] at h
        cases h
      | ok mid =>
        rw [hmid] at h
        exact .inr ⟨newState, mid, rfl, hmid, (Except.ok.inj h).symm⟩
  | none =>
    rw [hget] at h
    dsimp only at h
    refine .inr ⟨rfl, ?_⟩
    rcases hcall : callback none self.blockStatuses with ⟨_ | newState, statuses⟩
    · rw [hcall] at h
      exact .inl ⟨rfl, (Except.ok.inj h).symm⟩
    · rw [hcall] at h
      dsimp only at h
      -- the block arrives as incoming or active
      split_ifs at h with hkind
      refine .inr ⟨newState, rfl, ?_, (Except.ok.inj h).symm⟩
      cases hid : newState.id <;> simp_all


@[simp] theorem blockStatuses_withStatuses (self : BlocksState ι)
    (blockStatuses : SortedMap ι (BlockStatus ι)) :
    (self.withStatuses blockStatuses).blockStatuses = blockStatuses := rfl

@[simp] theorem sequenceCounter_withStatuses (self : BlocksState ι)
    (blockStatuses : SortedMap ι (BlockStatus ι)) :
    (self.withStatuses blockStatuses).sequenceCounter = self.sequenceCounter := rfl

theorem index_withStatuses (self : BlocksState ι) (blockStatuses : SortedMap ι (BlockStatus ι)) :
    (self.withStatuses blockStatuses).index = self.index := by
  funext k
  cases k <;> rfl

@[simp] theorem kindOf_updateIndexes (self : BlocksState ι) (blockId : ι)
    (old new : Option BlockStatusId) (b : ι) :
    (self.updateIndexes blockId old new).kindOf b = self.kindOf b := by
  simp [kindOf]

theorem kindOf_removeStatus (self : BlocksState ι) (blockId : ι) (old : BlockStatusId) (b : ι) :
    (self.removeStatus blockId old).kindOf b = if b = blockId then none else self.kindOf b := by
  simp only [kindOf, removeStatus, blockStatuses_updateIndexes, SortedMap.get?_erase]
  split_ifs <;> rfl

theorem index_removeStatus (self : BlocksState ι) (blockId : ι) (old k : BlockStatusId) :
    (self.removeStatus blockId old).index k =
      if old = k then (self.index k).erase blockId else self.index k := by
  rw [removeStatus, index_updateIndexes]
  simp only [reduceCtorEq, if_false, Option.some.injEq]
  rfl

/-- **The indexes after a transition.**  A transition that goes through gives
the block the kind of its new status, and leaves every other kind and every
index. -/
theorem applyTransition_kinds {self self' : BlocksState ι} {blockId : ι}
    {newState : BlockStatus ι} {old : BlockStatusId}
    (h : self.applyTransition blockId newState old newState.id = .ok self') :
    self'.index = self.index ∧
      ∀ b, self'.kindOf b = if b = blockId then some newState.id else self.kindOf b := by
  rcases applyTransition_cases h with ⟨rfl, -⟩ | rfl | ⟨rfl, -⟩ | ⟨rfl, -⟩
  · exact ⟨index_insertStatus _ _ _, kindOf_insertStatus _ _ _⟩
  · exact ⟨index_insertNumbered _ _ _, kindOf_insertNumbered _ _ _⟩
  · obtain ⟨hindex, hkind⟩ := promoteDepTree_sameKinds (self.insertNumbered blockId newState) blockId
    exact ⟨hindex.trans (index_insertNumbered _ _ _),
      fun b => (hkind b).trans (kindOf_insertNumbered _ _ _ b)⟩
  · obtain ⟨hindex, hkind⟩ := promoteDepTree_sameKinds (self.insertStatus blockId newState) blockId
    exact ⟨hindex.trans (index_insertStatus _ _ _),
      fun b => (hkind b).trans (kindOf_insertStatus _ _ _ b)⟩

/-- A callback that leaves the kind of every status in the map it is given. -/
def Callback.KeepsKinds (callback : Callback ι) : Prop :=
  ∀ old statuses b, ((callback old statuses).2.get? b).map BlockStatus.id =
    (statuses.get? b).map BlockStatus.id

namespace IndexesConsistent

variable {self : BlocksState ι}

/-- The status of a block leaves the map and the index of its kind. -/
theorem removeStatus (hc : self.IndexesConsistent) {blockId : ι} {block : BlockStatus ι}
    (hget : self.blockStatuses.get? blockId = some block) :
    (self.removeStatus blockId block.id).IndexesConsistent := by
  intro k b
  have hblock : self.kindOf blockId = some block.id := by rw [kindOf, hget]; rfl
  rw [index_removeStatus, kindOf_removeStatus]
  by_cases hb : b = blockId
  · -- the block is in no index any more
    subst hb
    rw [if_pos rfl]
    refine ⟨fun hmem => ?_, fun h => by cases h⟩
    split_ifs at hmem with hk
    · simp at hmem
    · rw [hc k b, hblock] at hmem
      exact absurd (Option.some.inj hmem) hk
  · rw [if_neg hb, ← hc k b]
    split_ifs <;> simp [hb]

/-- A map whose statuses have the kinds of the old ones. -/
theorem withStatuses (hc : self.IndexesConsistent) {blockStatuses : SortedMap ι (BlockStatus ι)}
    (hkinds : ∀ b, (blockStatuses.get? b).map BlockStatus.id =
      (self.blockStatuses.get? b).map BlockStatus.id) :
    (self.withStatuses blockStatuses).IndexesConsistent := by
  intro k b
  rw [index_withStatuses, hc k b]
  exact iff_of_eq (congrArg (· = some k) (hkinds b).symm)

/-- A block without a status takes one of kind `k`, and the index of `k` takes
the block. -/
theorem updateIndexes_insert (hc : self.IndexesConsistent) {self' : BlocksState ι}
    {blockId : ι} {k : BlockStatusId} (hnone : self.kindOf blockId = none)
    (hindex : self'.index = self.index)
    (hkind : ∀ b, self'.kindOf b = if b = blockId then some k else self.kindOf b) :
    (self'.updateIndexes blockId none (some k)).IndexesConsistent := by
  intro k' b
  rw [index_updateIndexes, hindex, kindOf_updateIndexes, hkind b]
  simp only [reduceCtorEq, if_false, Option.some.injEq]
  by_cases hb : b = blockId
  · -- the block is in the index of its new kind only
    subst hb
    rw [if_pos rfl]
    by_cases hk : k = k'
    · subst hk
      simp
    · rw [if_neg hk, hc k' b, hnone]
      simp [hk]
  · rw [if_neg hb, ← hc k' b]
    split_ifs <;> simp [hb]

/-- **One transition.**  A transition whose callback keeps the kinds of the
other statuses keeps every index equal to the blocks of its kind. -/
theorem transitionMap (hc : self.IndexesConsistent) {blockId : ι} {callback : Callback ι}
    (hcallback : callback.KeepsKinds) {self' : BlocksState ι}
    (h : self.transitionMap blockId callback = .ok self') : self'.IndexesConsistent := by
  rcases transitionMap_cases h with
    ⟨block, hget, ⟨-, rfl⟩ | ⟨newState, mid, -, hmid, rfl⟩⟩ |
      ⟨hget, ⟨-, rfl⟩ | ⟨newState, -, -, rfl⟩⟩
  · exact (hc.removeStatus hget).withStatuses (hcallback (some block) _)
  · -- the removed block has no status when the table puts the new one in
    have hremoved := (hc.removeStatus hget).withStatuses (hcallback (some block) _)
    have hnone : ((self.removeStatus blockId block.id).withStatuses
        (callback (some block) (self.removeStatus blockId block.id).blockStatuses).2).kindOf
          blockId = none := by
      rw [kindOf, blockStatuses_withStatuses, hcallback]
      simpa [kindOf] using kindOf_removeStatus self blockId block.id blockId
    obtain ⟨hindex, hkind⟩ := applyTransition_kinds hmid
    exact hremoved.updateIndexes_insert hnone hindex hkind
  · exact hc.withStatuses (hcallback none _)
  · have hnone : (self.withStatuses (callback none self.blockStatuses).2).kindOf blockId = none := by
      rw [kindOf, blockStatuses_withStatuses, hcallback, hget]
      rfl
    exact (hc.withStatuses (hcallback none _)).updateIndexes_insert hnone (index_insertStatus _ _ _)
      (kindOf_insertStatus _ _ _)

end IndexesConsistent

/-- The states that runs of `transition_map` reach from `new`, with callbacks
that keep the kinds of the statuses they are given. -/
inductive Reachable : BlocksState ι → Prop
  | new : Reachable new
  | step {self self' : BlocksState ι} (blockId : ι) (callback : Callback ι) :
      Reachable self → callback.KeepsKinds → self.transitionMap blockId callback = .ok self' →
      Reachable self'

/-- **The indexes over whole runs.**  In every state that transitions reach
from `new`, with callbacks that keep the kinds of the other statuses, each of
the five indexes holds exactly the blocks whose status has its kind. -/
theorem Reachable.indexesConsistent {self : BlocksState ι} (h : Reachable self) :
    self.IndexesConsistent := by
  induction h with
  | new =>
    intro k b
    cases k <;> simp [BlocksState.new, index, kindOf]
  | step blockId callback _ hcallback hstep ih => exact ih.transitionMap hcallback hstep

/-- Block `1` arrives, then is discarded: both indexes follow. -/
theorem indexesConsistent_arrive_discard : ∃ s₁ s₂ : BlocksState ℕ,
    BlocksState.new.transitionMap 1 (fun _ m => (some .incoming, m)) = .ok s₁ ∧
      s₁.transitionMap 1 (fun _ m => (some (.discarded 0), m)) = .ok s₂ ∧ s₂.IndexesConsistent := by
  have h₁ := Reachable.step 1 (fun _ m => (some .incoming, m)) (@Reachable.new ℕ _)
    (fun _ _ _ => rfl) rfl
  have h₂ := Reachable.step 1 (fun _ m => (some (.discarded 0), m)) h₁ (fun _ _ _ => rfl) rfl
  exact ⟨_, _, rfl, rfl, Reachable.indexesConsistent h₂⟩


/-! ### Promoting a dependency tree -/

section Explore

variable (statuses : SortedMap ι (BlockStatus ι))

theorem exploreDepTree_nil (toPromote : SortedMap ι (Slot × UInt64)) :
    exploreDepTree statuses [] toPromote = toPromote := by
  rw [exploreDepTree]

/-- A block waiting for dependencies that `to_promote` does not hold yet
enters it, and its dependencies are pushed. -/
theorem exploreDepTree_promote {h : ι} (toExplore : List ι) {toPromote : SortedMap ι (Slot × UInt64)}
    (hnew : toPromote.get? h = none) {slot : Slot} {deps : Finset ι} {seq : UInt64}
    (hget : statuses.get? h = some (.waitingForDependencies slot deps seq)) :
    exploreDepTree statuses (h :: toExplore) toPromote =
      exploreDepTree statuses ((deps.sort (· ≤ ·)).reverse ++ toExplore)
        (toPromote.insert h (slot, seq)) := by
  rw [exploreDepTree, dif_pos hnew]
  split
  · rename_i heq
    rw [hget] at heq
    cases heq
    rfl
  · rename_i hother
    exact absurd hget (hother _ _ _)

/-- Any other block is popped and skipped. -/
theorem exploreDepTree_skip {h : ι} (toExplore : List ι) {toPromote : SortedMap ι (Slot × UInt64)}
    (hskip : toPromote.get? h = none →
      ∀ slot deps seq, statuses.get? h ≠ some (.waitingForDependencies slot deps seq)) :
    exploreDepTree statuses (h :: toExplore) toPromote =
      exploreDepTree statuses toExplore toPromote := by
  rw [exploreDepTree]
  split_ifs with hnew
  · split
    · rename_i slot deps seq hget
      exact absurd hget (hskip hnew slot deps seq)
    · rfl
  · rfl

/-- Blocks already in `to_promote` stay there, with their slot and number. -/
theorem exploreDepTree_mono (toExplore : List ι) (toPromote : SortedMap ι (Slot × UInt64))
    {k : ι} {x : Slot × UInt64} (hk : toPromote.get? k = some x) :
    (exploreDepTree statuses toExplore toPromote).get? k = some x := by
  induction toExplore, toPromote using exploreDepTree.induct statuses with
  | case1 toPromote => rwa [exploreDepTree_nil]
  | case2 h toExplore toPromote hnew slot deps seq hget ih =>
    rw [exploreDepTree_promote statuses toExplore hnew hget]
    -- the new entry is at another key
    have hne : k ≠ h := fun hkh => by rw [hkh, hnew] at hk; cases hk
    exact ih (by rw [SortedMap.get?_insert, if_neg hne, hk])
  | case3 h toExplore toPromote hnew hother ih =>
    rw [exploreDepTree_skip statuses toExplore fun _ => hother]
    exact ih hk
  | case4 h toExplore toPromote hold ih =>
    rw [exploreDepTree_skip statuses toExplore fun hnew => absurd hnew hold]
    exact ih hk

/-- An entry of `to_promote` is a block waiting for dependencies, with its
slot and sequence number. -/
def Promotable (k : ι) (x : Slot × UInt64) : Prop :=
  ∃ deps, statuses.get? k = some (.waitingForDependencies x.1 deps x.2)

/-- Every block the loop promotes waits for dependencies. -/
theorem exploreDepTree_promotable (toExplore : List ι) (toPromote : SortedMap ι (Slot × UInt64))
    (hinit : ∀ k x, toPromote.get? k = some x → Promotable statuses k x) :
    ∀ k x, (exploreDepTree statuses toExplore toPromote).get? k = some x →
      Promotable statuses k x := by
  induction toExplore, toPromote using exploreDepTree.induct statuses with
  | case1 toPromote => rwa [exploreDepTree_nil]
  | case2 h toExplore toPromote hnew slot deps seq hget ih =>
    rw [exploreDepTree_promote statuses toExplore hnew hget]
    refine ih fun k x hk => ?_
    rw [SortedMap.get?_insert] at hk
    split_ifs at hk with hkh
    · cases hk
      exact ⟨deps, hkh ▸ hget⟩
    · exact hinit k x hk
  | case3 h toExplore toPromote hnew hother ih =>
    rw [exploreDepTree_skip statuses toExplore fun _ => hother]
    exact ih hinit
  | case4 h toExplore toPromote hold ih =>
    rw [exploreDepTree_skip statuses toExplore fun hnew => absurd hnew hold]
    exact ih hinit

/-- The block the loop starts from is promoted when it waits for
dependencies. -/
theorem exploreDepTree_self {hash : ι} {slot : Slot} {deps : Finset ι} {seq : UInt64}
    (hget : statuses.get? hash = some (.waitingForDependencies slot deps seq)) :
    (exploreDepTree statuses [hash] ∅).get? hash = some (slot, seq) := by
  rw [exploreDepTree_promote statuses [] (SortedMap.get?_empty hash) hget]
  exact exploreDepTree_mono statuses _ _ (by simp)

/-- The blocks waiting for dependencies that `hash` reaches through unsatisfied
dependencies, each waiting for dependencies on the way: the dependency tree of
`promote_dep_tree`. -/
inductive DepReach (hash : ι) : ι → Prop
  | start {slot : Slot} {deps : Finset ι} {n : UInt64} :
      statuses.get? hash = some (.waitingForDependencies slot deps n) → DepReach hash hash
  | dep {a b : ι} {slot slot' : Slot} {deps deps' : Finset ι} {n n' : UInt64} :
      DepReach hash a → statuses.get? a = some (.waitingForDependencies slot deps n) → b ∈ deps →
      statuses.get? b = some (.waitingForDependencies slot' deps' n') → DepReach hash b

/-- The dependencies pushed for a block are its unsatisfied dependencies. -/
theorem mem_pushed_iff {deps : Finset ι} {toExplore : List ι} {x : ι} :
    x ∈ (deps.sort (· ≤ ·)).reverse ++ toExplore ↔ x ∈ deps ∨ x ∈ toExplore := by
  rw [List.mem_append, List.mem_reverse, Finset.mem_sort]

/-- The loop promotes only blocks of the tree, when the stack holds only
blocks of the tree or blocks not waiting for dependencies. -/
theorem exploreDepTree_depReach {hash : ι} (toExplore : List ι)
    (toPromote : SortedMap ι (Slot × UInt64))
    (hpromote : ∀ k, (toPromote.get? k).isSome → DepReach statuses hash k)
    (hexplore : ∀ x ∈ toExplore, ∀ slot deps n,
      statuses.get? x = some (.waitingForDependencies slot deps n) → DepReach statuses hash x) :
    ∀ k, ((exploreDepTree statuses toExplore toPromote).get? k).isSome →
      DepReach statuses hash k := by
  induction toExplore, toPromote using exploreDepTree.induct statuses with
  | case1 toPromote => rwa [exploreDepTree_nil]
  | case2 h toExplore toPromote hnew slot deps seq hget ih =>
    rw [exploreDepTree_promote statuses toExplore hnew hget]
    have hh : DepReach statuses hash h := hexplore h List.mem_cons_self _ _ _ hget
    apply ih
    · intro k hk
      rw [SortedMap.get?_insert] at hk
      split_ifs at hk with hkh
      · exact hkh ▸ hh
      · exact hpromote k hk
    · -- the pushed dependencies of a block of the tree are in the tree
      intro x hx slot' deps' n' hx'
      rcases mem_pushed_iff.mp hx with hdep | hrest
      · exact .dep hh hget hdep hx'
      · exact hexplore x (List.mem_cons_of_mem _ hrest) _ _ _ hx'
  | case3 h toExplore toPromote hnew hother ih =>
    rw [exploreDepTree_skip statuses toExplore fun _ => hother]
    exact ih hpromote fun x hx => hexplore x (List.mem_cons_of_mem _ hx)
  | case4 h toExplore toPromote hold ih =>
    rw [exploreDepTree_skip statuses toExplore fun hnew => absurd hnew hold]
    exact ih hpromote fun x hx => hexplore x (List.mem_cons_of_mem _ hx)

/-- Every waiting dependency of a promoted block is promoted or still on the
stack: the invariant of the loop. -/
def DepsCovered (toExplore : List ι) (toPromote : SortedMap ι (Slot × UInt64)) : Prop :=
  ∀ k, (toPromote.get? k).isSome → ∀ slot deps n,
    statuses.get? k = some (.waitingForDependencies slot deps n) →
    ∀ d ∈ deps, ∀ slot' deps' n', statuses.get? d = some (.waitingForDependencies slot' deps' n') →
      (toPromote.get? d).isSome ∨ d ∈ toExplore

/-- Once the stack is empty, every waiting dependency of a promoted block is
promoted. -/
theorem exploreDepTree_depsCovered (toExplore : List ι) (toPromote : SortedMap ι (Slot × UInt64))
    (hcov : DepsCovered statuses toExplore toPromote) :
    DepsCovered statuses [] (exploreDepTree statuses toExplore toPromote) := by
  induction toExplore, toPromote using exploreDepTree.induct statuses with
  | case1 toPromote => rwa [exploreDepTree_nil]
  | case2 h toExplore toPromote hnew slot deps seq hget ih =>
    rw [exploreDepTree_promote statuses toExplore hnew hget]
    apply ih
    intro k hk slot₁ deps₁ n₁ hk' d hd slot₂ deps₂ n₂ hd'
    rw [SortedMap.get?_insert] at hk
    rw [SortedMap.get?_insert, mem_pushed_iff]
    by_cases hdh : d = h
    · exact .inl (by simp [hdh])
    · rw [if_neg hdh]
      split_ifs at hk with hkh
      · -- the block just promoted: its dependencies were pushed
        subst hkh
        rw [hget] at hk'
        cases hk'
        exact .inr (.inl hd)
      · rcases hcov k hk _ _ _ hk' d hd _ _ _ hd' with hp | hs
        · exact .inl hp
        · exact .inr (.inr ((List.mem_cons.mp hs).resolve_left hdh))
  | case3 h toExplore toPromote hnew hother ih =>
    rw [exploreDepTree_skip statuses toExplore fun _ => hother]
    apply ih
    intro k hk slot₁ deps₁ n₁ hk' d hd slot₂ deps₂ n₂ hd'
    rcases hcov k hk _ _ _ hk' d hd _ _ _ hd' with hp | hs
    · exact .inl hp
    · -- the popped block does not wait for dependencies, so it is not `d`
      rcases List.mem_cons.mp hs with hdh | hrest
      · exact absurd (hdh ▸ hd') (hother _ _ _)
      · exact .inr hrest
  | case4 h toExplore toPromote hold ih =>
    rw [exploreDepTree_skip statuses toExplore fun hnew => absurd hnew hold]
    apply ih
    intro k hk slot₁ deps₁ n₁ hk' d hd slot₂ deps₂ n₂ hd'
    rcases hcov k hk _ _ _ hk' d hd _ _ _ hd' with hp | hs
    · exact .inl hp
    · -- the popped block is promoted already
      rcases List.mem_cons.mp hs with hdh | hrest
      · exact .inl (by rw [hdh]; exact Option.ne_none_iff_isSome.mp hold)
      · exact .inr hrest

/-- **The loop promotes exactly the dependency tree** of the block. -/
theorem exploreDepTree_isSome_iff (hash b : ι) :
    ((exploreDepTree statuses [hash] ∅).get? b).isSome ↔ DepReach statuses hash b := by
  refine ⟨exploreDepTree_depReach statuses [hash] ∅ (by simp) ?_ b, fun hb => ?_⟩
  · intro x hx slot deps n hget
    rw [List.mem_singleton.mp hx] at hget ⊢
    exact .start hget
  · have hcov := exploreDepTree_depsCovered statuses [hash] ∅ (by intro k hk; simp at hk)
    induction hb with
    | start hget => rw [exploreDepTree_self statuses hget]; rfl
    | dep _ hget hmem hget' ih =>
      exact (hcov _ ih _ _ _ hget _ hmem _ _ _ hget').resolve_right List.not_mem_nil

end Explore


/-- The sequence number of a block, if its status has one. -/
def sequenceNumberOf (self : BlocksState ι) (b : ι) : Option UInt64 :=
  (self.blockStatuses.get? b).bind BlockStatus.sequenceNumber?

/-- **The renumbering loop.**  Over distinct blocks that all wait for
dependencies, the loop gives the `i`-th block the `i + 1`-th number after the
counter, leaves every other number, and moves the counter past them. -/
theorem renumber_spec (L : List (Slot × UInt64 × ι)) :
    ∀ self : BlocksState ι, (L.map (·.2.2)).Nodup →
      (∀ e ∈ L, ∃ slot deps n,
        self.blockStatuses.get? e.2.2 = some (.waitingForDependencies slot deps n)) →
      (self.renumber L).sequenceCounter = self.sequenceCounter + UInt64.ofNat L.length ∧
      ∀ b, (self.renumber L).sequenceNumberOf b =
        if b ∈ L.map (·.2.2) then
          some (self.sequenceCounter + UInt64.ofNat ((L.map (·.2.2)).idxOf b + 1))
        else self.sequenceNumberOf b := by
  induction L with
  | nil =>
    intro self _ _
    refine ⟨?_, fun b => ?_⟩ <;> simp [renumber]
  | cons e rest ih =>
    intro self hnodup hwait
    obtain ⟨slot, n, h⟩ := e
    replace hnodup : h ∉ rest.map (·.2.2) ∧ (rest.map (·.2.2)).Nodup := List.nodup_cons.mp hnodup
    obtain ⟨slot', deps, n', hget⟩ := hwait _ List.mem_cons_self
    replace hget : self.blockStatuses.get? h = some (.waitingForDependencies slot' deps n') := hget
    -- the head takes the next number
    set self₁ : BlocksState ι := { self with
      sequenceCounter := self.sequenceCounter + 1
      blockStatuses := self.blockStatuses.insert h
        (.waitingForDependencies slot' deps (self.sequenceCounter + 1)) } with hself₁
    have hstep : self.renumber ((slot, n, h) :: rest) = self₁.renumber rest := by
      rw [renumber, hget]
    have hwait₁ : ∀ e ∈ rest, ∃ slot deps n,
        self₁.blockStatuses.get? e.2.2 = some (.waitingForDependencies slot deps n) := by
      intro e he
      have hne : e.2.2 ≠ h := fun heq => hnodup.1 (heq ▸ List.mem_map_of_mem he)
      rw [hself₁, SortedMap.get?_insert, if_neg hne]
      exact hwait e (List.mem_cons_of_mem _ he)
    obtain ⟨hcounter, hnumbers⟩ := ih self₁ hnodup.2 hwait₁
    rw [hstep]
    refine ⟨?_, fun b => ?_⟩
    · rw [hcounter, List.length_cons, UInt64.ofNat_add, UInt64.ofNat_one]
      ac_rfl
    · rw [hnumbers b, List.map_cons]
      by_cases hb : b = h
      · subst hb
        rw [if_neg hnodup.1, if_pos List.mem_cons_self, List.idxOf_cons_self]
        simp [sequenceNumberOf, hself₁, BlockStatus.sequenceNumber?]
      · by_cases hmem : b ∈ rest.map (·.2.2)
        · rw [if_pos hmem, if_pos (List.mem_cons_of_mem _ hmem), List.idxOf_cons_ne _ (Ne.symm hb),
            UInt64.ofNat_add (_ + 1), UInt64.ofNat_one]
          show some (self.sequenceCounter + 1 + _) = _
          ac_rfl
        · rw [if_neg hmem, if_neg (by simp [hb, hmem])]
          simp [sequenceNumberOf, hself₁, hb]


section PromoteOrder

variable (toPromote : SortedMap ι (Slot × UInt64))

theorem promoteOrder_perm :
    (promoteOrder toPromote).Perm (toPromote.entries.map fun e => (e.2.1, e.2.2, e.1)) :=
  List.mergeSort_perm _ _

theorem mem_promoteOrder (e : Slot × UInt64 × ι) :
    e ∈ promoteOrder toPromote ↔ toPromote.get? e.2.2 = some (e.1, e.2.1) := by
  rw [(promoteOrder_perm toPromote).mem_iff, List.mem_map]
  constructor
  · rintro ⟨⟨k, x⟩, hmem, rfl⟩
    exact (toPromote.mem_entries_iff k x).mp hmem
  · intro hget
    exact ⟨(e.2.2, (e.1, e.2.1)), (toPromote.mem_entries_iff _ _).mpr hget, rfl⟩

/-- The promoted blocks are the keys of `to_promote`, each once. -/
theorem promoteOrder_ids_perm :
    ((promoteOrder toPromote).map (·.2.2)).Perm (toPromote.entries.map Prod.fst) := by
  have hmap := (promoteOrder_perm toPromote).map (·.2.2)
  rwa [List.map_map] at hmap

theorem nodup_promoteOrder_ids : ((promoteOrder toPromote).map (·.2.2)).Nodup :=
  (promoteOrder_ids_perm toPromote).nodup_iff.mpr toPromote.nodup_keys

theorem mem_promoteOrder_ids (b : ι) :
    b ∈ (promoteOrder toPromote).map (·.2.2) ↔ (toPromote.get? b).isSome := by
  rw [(promoteOrder_ids_perm toPromote).mem_iff, ← SortedMap.mem_keys]
  simp [SortedMap.keys]

theorem length_promoteOrder : (promoteOrder toPromote).length = toPromote.size := by
  rw [(promoteOrder_perm toPromote).length_eq, List.length_map]
  rfl

/-- The order is strictly increasing in `(slot, seq, id)`: the sort, and the
ids are distinct. -/
theorem promoteOrder_sorted :
    (promoteOrder toPromote).Pairwise fun a b => promoteKey a < promoteKey b := by
  have hsorted := @List.pairwise_mergeSort _ (fun a b => decide (promoteKey a ≤ promoteKey b))
    (fun a b c hab hbc => by
      rw [decide_eq_true_eq] at hab hbc ⊢
      exact hab.trans hbc)
    (fun a b => by simpa using le_total (promoteKey a) (promoteKey b))
    (toPromote.entries.map fun e => (e.2.1, e.2.2, e.1))
  have hne := List.pairwise_map.mp (nodup_promoteOrder_ids toPromote)
  refine (hsorted.and hne).imp fun ⟨hle, hid⟩ => lt_of_le_of_ne (by simpa using hle) fun heq => ?_
  -- the key holds the id
  exact hid (by simpa [promoteKey] using congrArg (fun x => (ofLex (ofLex x).2).2) heq)

end PromoteOrder

/-- Promotion renumbers the blocks of `promoteOrder`, in its order. -/
theorem promoteDepTree_renumbers (self : BlocksState ι) (hash : ι) :
    (self.promoteDepTree hash).sequenceCounter = self.sequenceCounter +
        UInt64.ofNat (promoteOrder (exploreDepTree self.blockStatuses [hash] ∅)).length ∧
      ∀ b, (self.promoteDepTree hash).sequenceNumberOf b =
        if b ∈ (promoteOrder (exploreDepTree self.blockStatuses [hash] ∅)).map (·.2.2) then
          some (self.sequenceCounter + UInt64.ofNat
            (((promoteOrder (exploreDepTree self.blockStatuses [hash] ∅)).map (·.2.2)).idxOf b + 1))
        else self.sequenceNumberOf b := by
  apply renumber_spec _ self (nodup_promoteOrder_ids _)
  intro e he
  obtain ⟨deps, hdeps⟩ := exploreDepTree_promotable self.blockStatuses [hash] ∅ (by simp) _ _
    ((mem_promoteOrder _ e).mp he)
  exact ⟨_, _, _, hdeps⟩

/-- **`promote_dep_tree`.**  The blocks of the dependency tree of `hash` take
the numbers after the counter, one each, in the order of their slots, old
numbers and ids; every other block keeps its number, and the counter moves
past the new numbers. -/
theorem promoteDepTree_spec (self : BlocksState ι) (hash : ι) :
    ∃ L : List (Slot × UInt64 × ι),
      (∀ e, e ∈ L ↔ DepReach self.blockStatuses hash e.2.2 ∧
        ∃ deps, self.blockStatuses.get? e.2.2 = some (.waitingForDependencies e.1 deps e.2.1)) ∧
      L.Pairwise (fun a b => promoteKey a < promoteKey b) ∧
      (self.promoteDepTree hash).sequenceCounter = self.sequenceCounter + UInt64.ofNat L.length ∧
      ∀ b, (self.promoteDepTree hash).sequenceNumberOf b =
        if b ∈ L.map (·.2.2) then
          some (self.sequenceCounter + UInt64.ofNat ((L.map (·.2.2)).idxOf b + 1))
        else self.sequenceNumberOf b := by
  set M := exploreDepTree self.blockStatuses [hash] ∅
  have hpromotable := exploreDepTree_promotable self.blockStatuses [hash] ∅ (by simp)
  refine ⟨promoteOrder M, fun e => ?_, promoteOrder_sorted M, promoteDepTree_renumbers self hash⟩
  rw [mem_promoteOrder]
  constructor
  · intro he
    obtain ⟨deps, hdeps⟩ := hpromotable _ _ he
    exact ⟨(exploreDepTree_isSome_iff _ hash _).mp (by rw [he]; rfl), deps, hdeps⟩
  · -- the tree's entry of the block holds its slot and number
    rintro ⟨hreach, deps, hget⟩
    obtain ⟨x, hx⟩ := Option.isSome_iff_exists.mp ((exploreDepTree_isSome_iff _ hash _).mpr hreach)
    obtain ⟨deps', hdeps'⟩ := hpromotable _ _ hx
    rw [hget, Option.some.injEq, BlockStatus.waitingForDependencies.injEq] at hdeps'
    obtain ⟨hslot, -, hseq⟩ := hdeps'
    rw [hx, hslot, hseq]


/-! ### The sequence numbers -/

@[simp] theorem sequenceNumberOf_withStatuses (self : BlocksState ι)
    (blockStatuses : SortedMap ι (BlockStatus ι)) (b : ι) :
    (self.withStatuses blockStatuses).sequenceNumberOf b =
      (blockStatuses.get? b).bind BlockStatus.sequenceNumber? := rfl

@[simp] theorem sequenceNumberOf_updateIndexes (self : BlocksState ι) (blockId : ι)
    (old new : Option BlockStatusId) (b : ι) :
    (self.updateIndexes blockId old new).sequenceNumberOf b = self.sequenceNumberOf b := by
  simp [sequenceNumberOf]

@[simp] theorem sequenceCounter_removeStatus (self : BlocksState ι) (blockId : ι)
    (old : BlockStatusId) : (self.removeStatus blockId old).sequenceCounter = self.sequenceCounter := by
  simp [removeStatus]

theorem sequenceNumberOf_removeStatus (self : BlocksState ι) (blockId : ι) (old : BlockStatusId)
    (b : ι) : (self.removeStatus blockId old).sequenceNumberOf b =
      if b = blockId then none else self.sequenceNumberOf b := by
  simp only [sequenceNumberOf, removeStatus, blockStatuses_updateIndexes, SortedMap.get?_erase]
  split_ifs <;> rfl

theorem sequenceNumberOf_insertStatus (self : BlocksState ι) (blockId : ι)
    (newState : BlockStatus ι) (b : ι) : (self.insertStatus blockId newState).sequenceNumberOf b =
      if b = blockId then newState.sequenceNumber? else self.sequenceNumberOf b := by
  simp only [sequenceNumberOf, insertStatus, SortedMap.get?_insert]
  split_ifs <;> rfl

theorem sequenceNumberOf_insertNumbered (self : BlocksState ι) (blockId : ι)
    (newState : BlockStatus ι) (b : ι) : (self.insertNumbered blockId newState).sequenceNumberOf b =
      if b = blockId then newState.sequenceNumber?.map fun _ => self.sequenceCounter + 1
      else self.sequenceNumberOf b := by
  simp only [sequenceNumberOf, insertNumbered, SortedMap.get?_insert]
  split_ifs <;> simp

/-- A callback that leaves the sequence number of every status in the map it
is given.  The callbacks of consensus change only the children of active
blocks. -/
def Callback.KeepsNumbers (callback : Callback ι) : Prop :=
  ∀ old statuses b, ((callback old statuses).2.get? b).bind BlockStatus.sequenceNumber? =
    (statuses.get? b).bind BlockStatus.sequenceNumber?

/-- The sequence numbers are fresh: none is above the counter and no two
blocks share one, so that the numbers order the blocks by when they were
numbered. -/
structure NumbersFresh (state : BlocksState ι) : Prop where
  le_counter : ∀ b n, state.sequenceNumberOf b = some n → n.toNat ≤ state.sequenceCounter.toNat
  injective : ∀ b b' n, state.sequenceNumberOf b = some n → state.sequenceNumberOf b' = some n →
    b = b'

namespace NumbersFresh

variable {self : BlocksState ι}

/-- A state whose counter is no lower, and whose numbers are numbers of the
old state at the same blocks. -/
theorem of_le (h : self.NumbersFresh) {self' : BlocksState ι}
    (hcounter : self.sequenceCounter.toNat ≤ self'.sequenceCounter.toNat)
    (hnumbers : ∀ b n, self'.sequenceNumberOf b = some n → self.sequenceNumberOf b = some n) :
    self'.NumbersFresh where
  le_counter b n hb := (h.le_counter b n (hnumbers b n hb)).trans hcounter
  injective b b' n hb hb' := h.injective b b' n (hnumbers b n hb) (hnumbers b' n hb')

theorem removeStatus (h : self.NumbersFresh) (blockId : ι) (old : BlockStatusId) :
    (self.removeStatus blockId old).NumbersFresh := by
  refine h.of_le (by simp) fun b n hb => ?_
  rw [sequenceNumberOf_removeStatus] at hb
  split_ifs at hb
  exact hb

/-- The map as a callback that keeps the numbers left it. -/
theorem withCallback (h : self.NumbersFresh) {callback : Callback ι}
    (hcallback : callback.KeepsNumbers) (old : Option (BlockStatus ι)) :
    (self.withStatuses (callback old self.blockStatuses).2).NumbersFresh :=
  h.of_le le_rfl fun b n hb => by rwa [sequenceNumberOf_withStatuses, hcallback] at hb

/-- A status without a number. -/
theorem insertStatus (h : self.NumbersFresh) (blockId : ι) {newState : BlockStatus ι}
    (hnone : newState.sequenceNumber? = none) :
    (self.insertStatus blockId newState).NumbersFresh := by
  refine h.of_le le_rfl fun b n hb => ?_
  rw [sequenceNumberOf_insertStatus] at hb
  split_ifs at hb
  · rw [hnone] at hb
    cases hb
  · exact hb

/-- The next number goes to the new status, when the counter has room. -/
theorem insertNumbered (h : self.NumbersFresh) (blockId : ι) (newState : BlockStatus ι)
    (hroom : self.sequenceCounter.toNat + 1 < 2 ^ 64) :
    (self.insertNumbered blockId newState).NumbersFresh := by
  have hcounter : (self.sequenceCounter + 1).toNat = self.sequenceCounter.toNat + 1 := by
    rw [UInt64.toNat_add, UInt64.toNat_one, Nat.mod_eq_of_lt hroom]
  -- the block has the next number, or none; every other block its old one
  have hnew : ∀ n, (newState.sequenceNumber?.map fun _ => self.sequenceCounter + 1) = some n →
      n = self.sequenceCounter + 1 := by
    intro n hn
    obtain ⟨_, -, rfl⟩ := Option.map_eq_some_iff.mp hn
    rfl
  constructor
  · intro b n hb
    show n.toNat ≤ (self.sequenceCounter + 1).toNat
    rw [sequenceNumberOf_insertNumbered] at hb
    split_ifs at hb
    · rw [hnew n hb]
    · have := h.le_counter b n hb
      omega
  · intro b b' n hb hb'
    rw [sequenceNumberOf_insertNumbered] at hb hb'
    split_ifs at hb hb' with hbid hbid'
    · rw [hbid, hbid']
    · have := h.le_counter b' n hb'
      rw [hnew n hb] at this
      omega
    · have := h.le_counter b n hb
      rw [hnew n hb'] at this
      omega
    · exact h.injective b b' n hb hb'

theorem updateIndexes (h : self.NumbersFresh) (blockId : ι) (old new : Option BlockStatusId) :
    (self.updateIndexes blockId old new).NumbersFresh :=
  h.of_le (by simp) fun b n hb => by rwa [sequenceNumberOf_updateIndexes] at hb

/-- A state that has the numbers of a fresh one away from a block, with no
lower counter, is fresh once the block is taken out of its map. -/
theorem erase_of_ne (h : self.NumbersFresh) {self' : BlocksState ι} {blockId : ι}
    (hcounter : self.sequenceCounter.toNat ≤ self'.sequenceCounter.toNat)
    (hnumbers : ∀ b, b ≠ blockId → self'.sequenceNumberOf b = self.sequenceNumberOf b) :
    (self'.withStatuses (self'.blockStatuses.erase blockId)).NumbersFresh := by
  refine h.of_le hcounter fun b n hb => ?_
  rw [sequenceNumberOf_withStatuses, SortedMap.get?_erase] at hb
  split_ifs at hb with hbid
  · cases hb
  · rw [← hnumbers b hbid]
    exact hb

end NumbersFresh

/-- The blocks of a map whose kinds are kinds of another are no more. -/
theorem size_le_of_kindOf {self self' : BlocksState ι}
    (h : ∀ b, (self'.kindOf b).isSome → (self.kindOf b).isSome) :
    self'.blockStatuses.size ≤ self.blockStatuses.size :=
  SortedMap.size_le_of_isSome _ _ fun b hb => by simpa [kindOf] using h b (by simpa [kindOf] using hb)

/-- **Promotion keeps the numbers fresh.**  The blocks of the dependency tree
take the numbers after the counter, one each, when the counter has room for
every block of the map; numbers that were fresh away from the promoted block
stay so. -/
theorem NumbersFresh.promoteDepTree {self : BlocksState ι} {hash : ι}
    (h : (self.withStatuses (self.blockStatuses.erase hash)).NumbersFresh)
    (hkind : self.kindOf hash = some .waitingForDependencies)
    (hroom : self.sequenceCounter.toNat + self.blockStatuses.size < 2 ^ 64) :
    (self.promoteDepTree hash).NumbersFresh := by
  obtain ⟨s, hget, hs⟩ := Option.map_eq_some_iff.mp hkind
  obtain ⟨slot, deps, seq, rfl⟩ := (BlockStatus.id_eq_waitingForDependencies_iff s).mp hs
  have hpromotable := exploreDepTree_promotable self.blockStatuses [hash] ∅ (by simp)
  have hhash := exploreDepTree_self self.blockStatuses hget
  obtain ⟨hcounter, hnumbers⟩ := promoteDepTree_renumbers self hash
  set M := exploreDepTree self.blockStatuses [hash] ∅
  set L := promoteOrder M
  set ids := L.map (·.2.2) with hids
  set c := self.sequenceCounter
  -- the tree has no more blocks than the map, so the counter has room for it
  have hlen : L.length ≤ self.blockStatuses.size := by
    rw [length_promoteOrder]
    apply SortedMap.size_le_of_isSome
    intro k hk
    obtain ⟨x, hx⟩ := Option.isSome_iff_exists.mp hk
    obtain ⟨deps, hdeps⟩ := hpromotable k x hx
    rw [hdeps]
    rfl
  have htoNat : ∀ k ≤ L.length, (c + UInt64.ofNat k).toNat = c.toNat + k := by
    intro k hk
    rw [UInt64.toNat_add, UInt64.toNat_ofNat', Nat.mod_eq_of_lt (by omega),
      Nat.mod_eq_of_lt (by omega)]
  have hhash : hash ∈ ids := by
    rw [hids, mem_promoteOrder_ids, hhash]
    rfl
  -- a block of the tree has a number past the counter
  have hnew : ∀ b ∈ ids, (c + UInt64.ofNat (ids.idxOf b + 1)).toNat = c.toNat + ids.idxOf b + 1 ∧
      ids.idxOf b < L.length := by
    intro b hb
    have hidx : ids.idxOf b < L.length := by
      simpa [hids] using List.idxOf_lt_length_of_mem hb
    exact ⟨htoNat _ hidx, hidx⟩
  -- any other block has its number in the state without the promoted block
  have hold : ∀ b n, b ∉ ids → self.sequenceNumberOf b = some n →
      n.toNat ≤ c.toNat ∧ ∀ b', b' ∉ ids → self.sequenceNumberOf b' = some n → b = b' := by
    have herase : ∀ b, b ∉ ids →
        (self.withStatuses (self.blockStatuses.erase hash)).sequenceNumberOf b =
          self.sequenceNumberOf b := by
      intro b hb
      have hne : b ≠ hash := fun heq => hb (heq ▸ hhash)
      rw [sequenceNumberOf_withStatuses, SortedMap.get?_erase, if_neg hne]
      rfl
    intro b n hb hbn
    refine ⟨h.le_counter b n (by rw [herase b hb, hbn]), fun b' hb' hb'n => ?_⟩
    exact h.injective b b' n (by rw [herase b hb, hbn]) (by rw [herase b' hb', hb'n])
  constructor
  · intro b n hb
    rw [hcounter, htoNat _ le_rfl]
    rw [hnumbers] at hb
    split_ifs at hb with hmem
    · cases hb
      have := hnew b hmem
      omega
    · have := (hold b n hmem hb).1
      omega
  · intro b b' n hb hb'
    rw [hnumbers] at hb hb'
    split_ifs at hb hb' with hmem hmem' hmem'
    · -- two blocks of the tree: their places in the order are equal
      cases hb
      have hidx : ids.idxOf b = ids.idxOf b' := by
        have h₁ := (hnew b hmem).1
        have h₂ := (hnew b' hmem').1
        rw [← Option.some.inj hb'] at h₁
        omega
      exact (List.idxOf_inj hmem).mp hidx
    · -- a block of the tree and another: one number is past the counter, one is not
      cases hb
      have := (hnew b hmem).1
      have := (hold b' _ hmem' hb').1
      omega
    · cases hb'
      have := (hnew b' hmem').1
      have := (hold b _ hmem hb).1
      omega
    · exact (hold b n hmem hb).2 b' hmem' hb'

/-- **One transition keeps the numbers fresh**, when its callback keeps the
kinds and the numbers of the other statuses, and the counter has room for one
number more than the map has blocks. -/
theorem NumbersFresh.transitionMap {self : BlocksState ι} (h : self.NumbersFresh) {blockId : ι}
    {callback : Callback ι} (hkinds : callback.KeepsKinds) (hnumbers : callback.KeepsNumbers)
    (hroom : self.sequenceCounter.toNat + self.blockStatuses.size + 1 < 2 ^ 64)
    {self' : BlocksState ι} (hstep : self.transitionMap blockId callback = .ok self') :
    self'.NumbersFresh := by
  rcases transitionMap_cases hstep with
    ⟨block, hget, ⟨-, rfl⟩ | ⟨newState, mid, -, hmid, rfl⟩⟩ |
      ⟨hget, ⟨-, rfl⟩ | ⟨newState, -, hkind, rfl⟩⟩
  · exact (h.removeStatus blockId block.id).withCallback hnumbers _
  · -- the table works on the state without the block, with the callback's map
    set removed := self.removeStatus blockId block.id
    set X := removed.withStatuses (callback (some block) removed.blockStatuses).2 with hX_def
    have hX : X.NumbersFresh := (h.removeStatus blockId block.id).withCallback hnumbers _
    have hXcounter : X.sequenceCounter = self.sequenceCounter := by simp [X, removed]
    have hXkind : ∀ b, X.kindOf b = if b = blockId then none else self.kindOf b := by
      intro b
      rw [← kindOf_removeStatus self blockId block.id b]
      exact hkinds _ _ b
    -- whatever the table puts in, the map has no more blocks than before
    have hsize : ∀ Y : BlocksState ι,
        (∀ b, Y.kindOf b = if b = blockId then some newState.id else X.kindOf b) →
          Y.blockStatuses.size ≤ self.blockStatuses.size := by
      intro Y hY
      apply size_le_of_kindOf
      intro b hb
      rw [hY, hXkind] at hb
      split_ifs at hb with hbid
      · rw [hbid, kindOf, hget]
        rfl
      · exact hb
    have hcounter₁ : (X.sequenceCounter + 1).toNat = self.sequenceCounter.toNat + 1 := by
      rw [hXcounter, UInt64.toNat_add, UInt64.toNat_one, Nat.mod_eq_of_lt (by omega)]
    apply NumbersFresh.updateIndexes
    rcases applyTransition_cases hmid with ⟨rfl, hnone⟩ | rfl | ⟨rfl, hwfd⟩ | ⟨rfl, hwfd⟩
    · exact hX.insertStatus blockId hnone
    · exact hX.insertNumbered blockId newState (by rw [hXcounter]; omega)
    · -- numbered, then promoted
      have hY := hsize _ (kindOf_insertNumbered X blockId newState)
      apply NumbersFresh.promoteDepTree
      · have hle : X.sequenceCounter.toNat ≤ (X.sequenceCounter + 1).toNat := by
          rw [hcounter₁, hXcounter]
          omega
        refine hX.erase_of_ne hle fun b hb => ?_
        rw [sequenceNumberOf_insertNumbered, if_neg hb]
      · rw [kindOf_insertNumbered, if_pos rfl, hwfd]
      · show (X.sequenceCounter + 1).toNat + _ < _
        omega
    · -- put in as the callback returned it, then promoted
      have hY := hsize _ (kindOf_insertStatus X blockId newState)
      apply NumbersFresh.promoteDepTree
      · refine hX.erase_of_ne le_rfl fun b hb => ?_
        rw [sequenceNumberOf_insertStatus, if_neg hb]
      · rw [kindOf_insertStatus, if_pos rfl, hwfd]
      · show X.sequenceCounter.toNat + _ < _
        rw [hXcounter]
        omega
  · exact h.withCallback hnumbers none
  · -- an incoming or active block has no number
    have hnone : newState.sequenceNumber? = none := by
      rw [BlockStatus.sequenceNumber?_eq_none_iff]
      rcases hkind with hk | hk <;> rw [hk] <;> simp
    exact ((h.withCallback hnumbers none).insertStatus blockId hnone).updateIndexes _ _ _

/-- The runs of `transition_map` from `new` whose callbacks keep the kinds and
the numbers of the other statuses, each from a state whose counter has room
for one number more than its map has blocks. -/
inductive NumberedRun : BlocksState ι → Prop
  | new : NumberedRun new
  | step {self self' : BlocksState ι} (blockId : ι) (callback : Callback ι) :
      NumberedRun self → callback.KeepsKinds → callback.KeepsNumbers →
      self.sequenceCounter.toNat + self.blockStatuses.size + 1 < 2 ^ 64 →
      self.transitionMap blockId callback = .ok self' → NumberedRun self'

/-- **The sequence numbers over whole runs.**  In every state such a run
reaches, no two blocks share a sequence number and none is above the counter:
each block numbered by a transition, or renumbered with its dependency tree,
is numbered after every block before it. -/
theorem NumberedRun.numbersFresh {self : BlocksState ι} (h : NumberedRun self) :
    self.NumbersFresh := by
  induction h with
  | new =>
    constructor <;> simp [sequenceNumberOf, BlocksState.new]
  | step blockId callback _ hkinds hnumbers hroom hstep ih =>
    exact ih.transitionMap hkinds hnumbers hroom hstep

/-- Block `1` arrives, then is discarded and numbered. -/
theorem numbersFresh_arrive_discard : ∃ s₁ s₂ : BlocksState ℕ,
    BlocksState.new.transitionMap 1 (fun _ m => (some .incoming, m)) = .ok s₁ ∧
      s₁.transitionMap 1 (fun _ m => (some (.discarded 0), m)) = .ok s₂ ∧
      s₂.sequenceNumberOf 1 = some 1 ∧ s₂.NumbersFresh := by
  have h₁ := NumberedRun.step 1 (fun _ m => (some .incoming, m)) (@NumberedRun.new ℕ _)
    (fun _ _ _ => rfl) (fun _ _ _ => rfl) (by decide) rfl
  have h₂ := NumberedRun.step 1 (fun _ m => (some (.discarded 0), m)) h₁
    (fun _ _ _ => rfl) (fun _ _ _ => rfl) (by decide) rfl
  exact ⟨_, _, rfl, rfl, rfl, NumberedRun.numbersFresh h₂⟩

end BlocksState

end Massa
