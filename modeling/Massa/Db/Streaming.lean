import Massa.Db.MassaDb
import Massa.Lib.Varint

/-!
# Bootstrap streaming of the database (`massa_db.rs`, `server.rs`, `client.rs`)

A bootstrapping client receives the server's state column in parts.  Each
round, the server reads a batch with `get_batch_to_stream` from its cursor:
the *new elements*, the entries after the cursor key up to a size limit, and
the *updates*, every change recorded since the change id of the previous
part to keys up to the cursor, so that what the client already holds follows
the server's writes.  The client writes each part at its change id with
`write_batch_bootstrap_client`.  Between two rounds the server's database
keeps taking the writes of the slots it finalizes.

The new elements are read with a RocksDB iterator positioned with
`IteratorMode::From(max_key, Forward)`, whose first item is dropped with
`iter.next()` on the assumption that it is the cursor key itself.  When a
finalized slot deletes the cursor key between two rounds, the seek lands on
the next key instead, and that key is dropped: it is neither a new element
nor an update (`getBatchToStreamOf_skips_key_after_deleted_cursor`).  A
session in which the slot after the first part deletes the cursor key and
writes a key above it then finishes with a client that lacks that key
(`streamBootstrap_misses_key_after_deleted_cursor`).

The consensus part of a round is out of this model: `get_bootstrap_part` is a
parameter that moves the consensus cursor, and the blocks it streams are
left out.  `get_batch_to_stream` and `get_versioning_batch_to_stream` differ
only in the column, the history and the size limit they read:
`getBatchToStreamOf` is both.
-/

namespace Massa

/-- `StreamingStep<T>`: the cursor of a stream. -/
inductive StreamingStep (T : Type) where
  | started
  | ongoing (last : T)
  | finished (last : Option T)
  deriving DecidableEq, Repr

/-- `StreamingStep::finished`. -/
def StreamingStep.isFinished {T : Type} : StreamingStep T → Bool
  | .finished _ => true
  | _ => false

/-- `StreamBatch<ChangeID>`. -/
structure StreamBatch (ChangeID : Type) where
  newElements : SortedMap Bytes Bytes
  updatesOnPreviousElements : DBBatch
  changeId : ChangeID

namespace StreamBatch

variable {ChangeID : Type}

/-- `StreamBatch::is_empty`: no update and no new element. -/
def isEmpty (self : StreamBatch ChangeID) : Bool :=
  self.updatesOnPreviousElements.entries.isEmpty && self.newElements.entries.isEmpty

/-- The batch `write_batch_bootstrap_client` writes: the updates, then the new
elements as puts. -/
def changes (self : StreamBatch ChangeID) : DBBatch :=
  self.newElements.entries.foldl (fun acc e => acc.insert e.1 (some e.2))
    self.updatesOnPreviousElements

/-- The cursor the client keeps after a batch: its last new key, or finished
when it has none. -/
def clientCursor (self : StreamBatch ChangeID) : StreamingStep Bytes :=
  match self.newElements.entries.getLast? with
  | some e => .ongoing e.1
  | none => .finished none

end StreamBatch

/-- The `Display` of `MassaDBError` (`displaydoc`). -/
def MassaDBError.display : MassaDBError → String
  | .invalidChangeID msg => "invalid ChangeID: " ++ msg
  | .timeError msg => "time error: " ++ msg
  | .cacheMissError msg => "cache miss error: " ++ msg

namespace RawMassaDB

variable {ChangeID : Type} [LinearOrder ChangeID] {H : Type}

/-- `bound_key_for_changes`: the updates go up to the cursor key while the
stream is ongoing, and over every key otherwise. -/
def boundKeyForChanges : StreamingStep Bytes → Bound Bytes
  | .ongoing maxKey => .included maxKey
  | _ => .unbounded

/-- The updates of the changes recorded from `lastChangeId` on
(`Bound::Included`), to keys within the bound, a later change overriding an
earlier one (`updates.extend` in change id order).  The two `range` calls,
from an included start to no end and from no start, never panic. -/
def updatesSince (history : SortedMap ChangeID DBBatch) (lastChangeId : ChangeID)
    (bound : Bound Bytes) : DBBatch :=
  (history.entries.filter fun e => decide (lastChangeId ≤ e.1)).foldl
    (fun updates e => updates.extend (e.2.filter fun k _ => Bound.contains .unbounded bound k)) ∅

/-- `"all our changes are strictly after last_change_id, we can't be sure we
did not miss any"`. -/
def changesAfterMsg : String :=
  "all our changes are strictly after last_change_id, we can't be sure we did not miss any"

/-- The `updates_on_previous_elements` of `get_batch_to_stream`: none on a
start or at the current change id, otherwise the recorded changes since the
client's change id, which the history must still hold. -/
def streamUpdates (history : SortedMap ChangeID DBBatch) (changeId : ChangeID)
    (lastStep : StreamingStep Bytes) (lastChangeId : Option ChangeID) :
    Except MassaDBError DBBatch :=
  match lastStep, lastChangeId with
  | .started, _ => .ok ∅
  | _, some last =>
    if changeId < last then
      .error (.cacheMissError
        "we don't have this change yet on this node (it's in the future for us)")
    else if last = changeId then .ok ∅
    else
      match history.entries.head? with
      | some (first, _) =>
        if first ≤ last then .ok (updatesSince history last (boundKeyForChanges lastStep))
        else .error (.cacheMissError changesAfterMsg)
      | none => .error (.cacheMissError changesAfterMsg)
  | _, none =>
    .error (.timeError "State streaming was ongoing or finished, but no last_change_id was provided")

/-- The size an entry adds to a batch: the key and the value with their `u64`
varint lengths. -/
def streamedSize (key value : Bytes) : ℕ :=
  key.length + value.length + (Varint.encode key.length).length +
    (Varint.encode value.length).length

/-- The loop over the column iterator: each entry is inserted while the
running size stays within the limit, and the first that does not fit ends
the loop. -/
def takeWithinSize (maxSize : ℕ) : ℕ → List (Bytes × Bytes) → SortedMap Bytes Bytes →
    SortedMap Bytes Bytes
  | _, [], newElements => newElements
  | size, e :: rest, newElements =>
    if size + streamedSize e.1 e.2 ≤ maxSize then
      takeWithinSize maxSize (size + streamedSize e.1 e.2) rest (newElements.insert e.1 e.2)
    else newElements

/-- The column iterator: positioned at the cursor key with
`IteratorMode::From(max_key, Forward)`, its first item dropped by
`iter.next()`, or from the first key. -/
def streamIterator (cf : SortedMap Bytes Bytes) : StreamingStep Bytes → List (Bytes × Bytes)
  | .ongoing maxKey => (cf.iterFrom maxKey).drop 1
  | _ => cf.entries

/-- `get_batch_to_stream` over a column, its change history and its size
limit. -/
def getBatchToStreamOf (cf : SortedMap Bytes Bytes) (history : SortedMap ChangeID DBBatch)
    (maxSize : ℕ) (changeId : ChangeID) (lastStep : StreamingStep Bytes)
    (lastChangeId : Option ChangeID) : Except MassaDBError (StreamBatch ChangeID) :=
  (streamUpdates history changeId lastStep lastChangeId).map fun updates =>
    { newElements :=
        if lastStep.isFinished then ∅ else takeWithinSize maxSize 0 (streamIterator cf lastStep) ∅
      updatesOnPreviousElements := updates
      changeId := changeId }

/-- `RawMassaDB::get_batch_to_stream`: the state column. -/
def getBatchToStream (self : RawMassaDB ChangeID H) (lastStateStep : StreamingStep Bytes)
    (lastChangeId : Option ChangeID) : Except MassaDBError (StreamBatch ChangeID) :=
  getBatchToStreamOf self.stateCf self.changeHistory self.config.maxFinalStateElementsSize
    self.changeId lastStateStep lastChangeId

/-- `RawMassaDB::get_versioning_batch_to_stream`: the versioning column. -/
def getVersioningBatchToStream (self : RawMassaDB ChangeID H)
    (lastVersioningStep : StreamingStep Bytes) (lastChangeId : Option ChangeID) :
    Except MassaDBError (StreamBatch ChangeID) :=
  getBatchToStreamOf self.versioningCf self.changeHistoryVersioning
    self.config.maxVersioningElementsSize self.changeId lastVersioningStep lastChangeId

/-- The size loop inserts only keys of the entries it reads. -/
theorem get?_takeWithinSize_of_forall_ne (maxSize : ℕ) {k : Bytes} :
    ∀ (size : ℕ) (l : List (Bytes × Bytes)) (acc : SortedMap Bytes Bytes), (∀ e ∈ l, e.1 ≠ k) →
      (takeWithinSize maxSize size l acc).get? k = acc.get? k
  | _, [], _, _ => rfl
  | size, e :: rest, acc, hne => by
    have hrest : ∀ e' ∈ rest, e'.1 ≠ k := fun e' he' => hne e' (List.mem_cons_of_mem _ he')
    unfold takeWithinSize
    split_ifs
    · rw [get?_takeWithinSize_of_forall_ne maxSize _ rest _ hrest, SortedMap.get?_insert,
        if_neg (Ne.symm (hne e List.mem_cons_self))]
    · rfl

/-- The updates reach no key outside the bound. -/
theorem get?_updatesSince_of_not_contains (history : SortedMap ChangeID DBBatch)
    (lastChangeId : ChangeID) {bound : Bound Bytes} {k : Bytes}
    (hk : Bound.contains .unbounded bound k = false) :
    (updatesSince history lastChangeId bound).get? k = none := by
  -- each batch of the fold is filtered by the bound, so none of them writes `k`
  suffices h : ∀ (l : List (ChangeID × DBBatch)) (acc : DBBatch), acc.get? k = none →
      (l.foldl (fun updates e =>
        updates.extend (e.2.filter fun k _ => Bound.contains .unbounded bound k)) acc).get? k =
        none from h _ ∅ rfl
  intro l
  induction l with
  | nil => exact fun _ h => h
  | cons e rest ih =>
    intro acc hacc
    apply ih
    rw [SortedMap.get?_extend, SortedMap.get?_filter, hacc, hk]
    cases e.2.get? k <;> rfl

/-- The updates of a part are none or those since a change id, up to the
stream's bound. -/
theorem streamUpdates_eq_ok {history : SortedMap ChangeID DBBatch} {changeId : ChangeID}
    {lastStep : StreamingStep Bytes} {lastChangeId : Option ChangeID} {updates : DBBatch}
    (h : streamUpdates history changeId lastStep lastChangeId = .ok updates) :
    updates = ∅ ∨ ∃ last, updates = updatesSince history last (boundKeyForChanges lastStep) := by
  unfold streamUpdates at h
  split at h
  · exact .inl (Except.ok.inj h).symm
  · split_ifs at h
    · exact .inl (Except.ok.inj h).symm
    · split at h
      · split_ifs at h
        exact .inr ⟨_, (Except.ok.inj h).symm⟩
      · cases h
  · cases h

/-- The first entry a seek at a missing key lands on is above that key. -/
theorem lt_of_iterFrom_eq_cons {cf : SortedMap Bytes Bytes} {maxKey key value : Bytes}
    {rest : List (Bytes × Bytes)} (hcursor : cf.get? maxKey = none)
    (hiter : cf.iterFrom maxKey = (key, value) :: rest) : maxKey < key := by
  have hmem : (key, value) ∈ cf.entries ∧ maxKey ≤ key :=
    (cf.sorted.mem_dropWhile maxKey (key, value)).mp (by
      rw [← SortedMap.iterFrom, hiter]
      exact List.mem_cons_self)
  refine lt_of_le_of_ne hmem.2 fun heq => ?_
  rw [← heq, SortedMap.mem_entries_iff, hcursor] at hmem
  exact Option.some_ne_none value hmem.1.symm

/-- **The key after a deleted cursor is skipped.**  When the cursor key of an
ongoing stream is no longer in the column, the seek lands on the next key,
`iter.next()` drops it, and it is above the bound of the updates: the part
carries it neither as a new element nor as an update. -/
theorem getBatchToStreamOf_skips_key_after_deleted_cursor {cf : SortedMap Bytes Bytes}
    {history : SortedMap ChangeID DBBatch} {maxSize : ℕ} {changeId : ChangeID}
    {lastChangeId : Option ChangeID} {batch : StreamBatch ChangeID} {maxKey key value : Bytes}
    (hcursor : cf.get? maxKey = none) (hnext : (cf.iterFrom maxKey).head? = some (key, value))
    (h : getBatchToStreamOf cf history maxSize changeId (.ongoing maxKey) lastChangeId =
      .ok batch) :
    batch.newElements.get? key = none ∧ batch.updatesOnPreviousElements.get? key = none := by
  obtain ⟨rest, hiter⟩ : ∃ rest, cf.iterFrom maxKey = (key, value) :: rest :=
    List.head?_eq_some_iff.mp hnext
  have hlt : maxKey < key := lt_of_iterFrom_eq_cons hcursor hiter
  have hsorted : KeysSorted ((key, value) :: rest) :=
    hiter ▸ cf.sorted.sublist (List.dropWhile_sublist _)
  unfold getBatchToStreamOf at h
  cases hupdates : streamUpdates history changeId (.ongoing maxKey) lastChangeId with
  | error e => rw [hupdates] at h; cases h
  | ok updates =>
    rw [hupdates] at h
    cases Except.ok.inj h
    refine ⟨?_, ?_⟩
    · -- the new elements are read from the entries after `key`, all above it
      show (takeWithinSize maxSize 0 ((cf.iterFrom maxKey).drop 1) ∅).get? key = none
      rw [hiter, List.drop_one, List.tail_cons, get?_takeWithinSize_of_forall_ne maxSize 0 rest ∅
        fun e he => ((keysSorted_cons.mp hsorted).1 e he).ne', SortedMap.get?_empty]
    · -- the updates stop at the cursor key, below `key`
      rcases streamUpdates_eq_ok hupdates with rfl | ⟨last, rfl⟩
      · rfl
      · apply get?_updatesSince_of_not_contains history last
        simp only [boundKeyForChanges, Bound.contains, Bound.startContains, Bound.endContains,
          Bool.true_and, decide_eq_false_iff_not, not_le]
        exact hlt

/-- A column that lost the cursor key `[2]` and holds `[3]`: the part read
from it carries `[3]` in neither of its maps. -/
theorem getBatchToStreamOf_skips_key_after_deleted_cursor_three :
    ∃ batch, getBatchToStreamOf ((SortedMap.singleton [1] [10]).insert [3] [30])
        (∅ : SortedMap Slot DBBatch) 100 ⟨1, 1⟩ (.ongoing [2]) (some ⟨1, 1⟩) = .ok batch ∧
      batch.newElements.get? [3] = none ∧ batch.updatesOnPreviousElements.get? [3] = none := by
  obtain ⟨batch, hbatch⟩ : ∃ batch, getBatchToStreamOf ((SortedMap.singleton [1] [10]).insert [3] [30])
      (∅ : SortedMap Slot DBBatch) 100 ⟨1, 1⟩ (.ongoing [2]) (some ⟨1, 1⟩) = .ok batch := ⟨_, rfl⟩
  exact ⟨batch, hbatch, getBatchToStreamOf_skips_key_after_deleted_cursor rfl rfl hbatch⟩

variable [XorOp H] [Zero H]

/-- `RawMassaDB::write_batch_bootstrap_client`: both parts written at the
state part's change id, with the history reset, and the client's cursors. -/
def writeBatchBootstrapClient (hashTuple : Bytes → Bytes → H) (self : RawMassaDB ChangeID H)
    (streamChanges streamChangesVersioning : StreamBatch ChangeID) :
    Except MassaDBError (RawMassaDB ChangeID H × StreamingStep Bytes × StreamingStep Bytes) :=
  (self.writeChanges hashTuple streamChanges.changes streamChangesVersioning.changes
      (some streamChanges.changeId) true).map
    fun db => (db, streamChanges.clientCursor, streamChangesVersioning.clientCursor)

end RawMassaDB

/-! ### The server and the client -/

/-- The variants of `BootstrapError` that the streaming returns, each with
its message. -/
inductive BootstrapError where
  | generalError (msg : String)
  | interrupted (msg : String)
  deriving DecidableEq, Repr

/-- `new_state_step` and `new_versioning_step` of `stream_bootstrap_information`:
an empty batch finishes the stream, otherwise the cursor moves to the last new
key.  A first batch with updates only fails with `startedWithoutElements`. -/
def nextStreamingStep {ChangeID : Type} (startedWithoutElements : String)
    (lastStep : StreamingStep Bytes) (part : StreamBatch ChangeID) :
    Except BootstrapError (StreamingStep Bytes) :=
  match lastStep with
  | .finished _ => .ok (.finished none)
  | .ongoing lastKey =>
    if part.isEmpty then .ok (.finished none)
    else
      match part.newElements.entries.getLast? with
      | some e => .ok (.ongoing e.1)
      | none => .ok (.ongoing lastKey)
  | .started =>
    -- an empty first batch finishes with a warning that nothing was streamed
    if part.isEmpty then .ok (.finished none)
    else
      match part.newElements.entries.getLast? with
      | some e => .ok (.ongoing e.1)
      | none => .error (.generalError startedWithoutElements)

/-- The cursors `stream_bootstrap_information` keeps from round to round;
`C` is the consensus cursor. -/
structure ServerSession (ChangeID C : Type) where
  lastSlot : Option ChangeID
  lastStateStep : StreamingStep Bytes
  lastVersioningStep : StreamingStep Bytes
  lastConsensusStep : StreamingStep C

/-- The messages of a round, with what the client writes of a part. -/
inductive ServerMessage (ChangeID : Type) where
  | bootstrapPart (slot : ChangeID) (statePart versioningPart : StreamBatch ChangeID)
  | bootstrapFinished

variable {ChangeID : Type} [LinearOrder ChangeID] {H C : Type}

/-- One round of the loop of `stream_bootstrap_information` on the server's
database as it is at that round.  `getBootstrapPart` is the consensus
controller's move of its cursor, asked once the final state is streamed;
`timeLeft` is whether the deadline leaves time for another part. -/
def streamRound (getBootstrapPart : StreamingStep C → Except BootstrapError (StreamingStep C))
    (db : RawMassaDB ChangeID H) (session : ServerSession ChangeID C) (timeLeft : Bool) :
    Except BootstrapError (ServerMessage ChangeID × ServerSession ChangeID C) := do
  let statePart ← (db.getBatchToStream session.lastStateStep session.lastSlot).mapError
    fun e => .generalError ("Error get_batch_to_stream: " ++ e.display)
  let newStateStep ← nextStreamingStep "State bootstrap started but we have no new elements to stream"
    session.lastStateStep statePart
  let versioningPart ← (db.getVersioningBatchToStream session.lastVersioningStep
    session.lastSlot).mapError
      fun e => .generalError ("Error get_versioning_batch_to_stream: " ++ e.display)
  let newVersioningStep ← nextStreamingStep
    "Versioning bootstrap started but we have no new elements to stream"
    session.lastVersioningStep versioningPart
  if session.lastSlot.any fun slot => decide (db.changeId < slot) then
    throw (.generalError "Bootstrap cursor set to future slot")
  let stateFinished := newStateStep.isFinished && newVersioningStep.isFinished
  let lastConsensusStep ←
    if stateFinished then getBootstrapPart session.lastConsensusStep
    else pure session.lastConsensusStep
  let session := ⟨some db.changeId, newStateStep, newVersioningStep, lastConsensusStep⟩
  if stateFinished && lastConsensusStep.isFinished then pure (.bootstrapFinished, session)
  else if !timeLeft then
    throw (.interrupted "insufficient time left to provide next bootstrap part")
  else pure (.bootstrapPart db.changeId statePart versioningPart, session)

variable [XorOp H] [Zero H]

/-- A session: the server's database at each round with whether time is
left, the client writing each part it receives
(`stream_final_state_and_consensus`).  It ends with `true` and the client's
database on `BootstrapFinished`, and with `false` when the rounds run out. -/
def streamSession (hashTuple : Bytes → Bytes → H)
    (getBootstrapPart : StreamingStep C → Except BootstrapError (StreamingStep C)) :
    List (RawMassaDB ChangeID H × Bool) → ServerSession ChangeID C → RawMassaDB ChangeID H →
      Except BootstrapError (Bool × RawMassaDB ChangeID H)
  | [], _, client => .ok (false, client)
  | (db, timeLeft) :: rounds, session, client =>
    match streamRound getBootstrapPart db session timeLeft with
    | .error e => .error e
    | .ok (.bootstrapFinished, _) => .ok (true, client)
    | .ok (.bootstrapPart _ statePart versioningPart, session) =>
      match client.writeBatchBootstrapClient hashTuple statePart versioningPart with
      | .error e => .error (.generalError ("Cannot write received stream batch to disk: " ++
          e.display))
      | .ok (client, _, _) => streamSession hashTuple getBootstrapPart rounds session client

/-! ### A key lost after a deleted cursor -/

/-- The server's database before its first write, with the production limits:
`MAX_BOOTSTRAP_FINAL_STATE_PARTS_SIZE` and
`MAX_BOOTSTRAP_VERSIONING_ELEMENTS_SIZE`. -/
def bootstrapServerDb : RawMassaDB Slot (BitVec 4096) :=
  ⟨⟨100, 100000000, 10000000⟩, ∅, ∅, ⟨0, 0⟩, none, ∅, ∅⟩

/-- The first finalized slot puts the keys `[1]` and `[2]`. -/
def firstSlotChanges : DBBatch :=
  (SortedMap.singleton [1] (some [10])).insert [2] (some [20])

/-- The next slot deletes `[2]` and puts `[3]`. -/
def secondSlotChanges : DBBatch :=
  (SortedMap.singleton [2] none).insert [3] (some [30])

/-- The first part ends at the cursor `[2]`; the slot finalized before the
next round deletes `[2]` and puts `[3]`.  The second round sends the delete as
an update and no new element, and the third finds nothing after the cursor:
the server announces the end, and the client, at the server's change id,
lacks `[3]`. -/
theorem streamBootstrap_misses_key_after_deleted_cursor :
    ∃ server₁ server₂ client,
      bootstrapServerDb.writeChanges lengthEntryHash firstSlotChanges ∅ (some ⟨1, 0⟩) false =
        .ok server₁ ∧
      server₁.writeChanges lengthEntryHash secondSlotChanges ∅ (some ⟨1, 1⟩) false =
        .ok server₂ ∧
      streamSession lengthEntryHash (fun _ => .ok (.finished none))
          [(server₁, true), (server₂, true), (server₂, true)]
          (⟨none, .started, .started, .started⟩ : ServerSession Slot Unit) bootstrapServerDb =
        .ok (true, client) ∧
      client.changeId = server₂.changeId ∧
      server₂.stateCf.get? [3] = some [30] ∧ client.stateCf.get? [3] = none :=
  ⟨_, _, _, rfl, rfl, rfl, rfl, rfl, rfl⟩

end Massa
