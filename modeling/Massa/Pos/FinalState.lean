import Massa.Pos.DeferredCredits
import Massa.Models.Serialization
import Massa.Db.MassaDb

/-!
# The PoS final state in the database (`massa-pos-exports/src/pos_final_state.rs`)

The PoS final state keeps its cycle history and its deferred credits in the
state column, under the prefixes `cycle_history/` and `deferred_credits/`.
A cycle-history key is the prefix, the cycle in eight big-endian bytes, an
identifier byte and, for the roll counts and production statistics, an
address; a deferred-credit key is the prefix, `Slot::to_bytes_key` and the
address.

* **Key validation.**  After a bootstrap each received pair is checked by
  `is_cycle_history_key_value_valid` or `is_deferred_credits_key_value_valid`.
  Both read the fixed-width part of the key with `buf_to_array_ctr`, which
  slices `buf[N..]` before checking that `N` bytes are there: a key made of
  the prefix and fewer than 8 (cycle) or 9 (slot) bytes panics
  (`posKeyValueValid_eq_error_iff`), while every other key is
  answered.  What the writers write passes: the cycle-history writers of
  `put_new_cycle_info` and `put_deferred_credits_entry`
  (`posBatchValid_writers`).

A panic is modelled as an `Except.error` carrying its message.
-/

namespace Massa

/-- The message of `slice_start_index_len_fail`: the panic of `&buf[n..]`
on a slice shorter than `n`. -/
def sliceStartIndexLenFail (index len : ℕ) : String :=
  "range start index " ++ toString index ++ " out of range for slice of length " ++ toString len

/-- `buf_to_array_ctr`: the bytes after the first `n`, and the first `n` read
by `ctr`.  The tuple's first element `&buf[N..]` is evaluated first, so a
buffer shorter than `n` panics before `buf.get(..N)?` can return `None`. -/
def bufToArrayCtr {V : Type} (n : ℕ) (ctr : Vector UInt8 n → V) (buf : Bytes) :
    Except String (Option (Bytes × V)) :=
  if buf.length < n then .error (sliceStartIndexLenFail n buf.length)
  else if h : (buf.take n).length = n then
    .ok (some (buf.drop n, ctr ⟨(buf.take n).toArray, by simpa using h⟩))
  else .ok none

/-- `buf_to_array_ctr` panics exactly on a buffer shorter than `n`. -/
theorem bufToArrayCtr_of_lt {V : Type} {n : ℕ} (ctr : Vector UInt8 n → V) {buf : Bytes}
    (h : buf.length < n) : bufToArrayCtr n ctr buf = .error (sliceStartIndexLenFail n buf.length) :=
  if_pos h

/-- On a buffer of at least `n` bytes, `buf_to_array_ctr` splits it. -/
theorem bufToArrayCtr_of_le {V : Type} {n : ℕ} (ctr : Vector UInt8 n → V) (buf : Bytes)
    (h : n ≤ buf.length) :
    ∃ v : Vector UInt8 n, v.toList = buf.take n ∧
      bufToArrayCtr n ctr buf = .ok (some (buf.drop n, ctr v)) := by
  have htake : (buf.take n).length = n := by simp [h]
  refine ⟨⟨(buf.take n).toArray, by simpa using htake⟩, rfl, ?_⟩
  rw [bufToArrayCtr, if_neg (not_lt.mpr h), dif_pos htake]

/-- `CYCLE_HISTORY_PREFIX`. -/
def cycleHistoryPrefix : Bytes := stringBytes "cycle_history/"

/-- `DEFERRED_CREDITS_PREFIX`. -/
def deferredCreditsPrefix : Bytes := stringBytes "deferred_credits/"

/-- `DEFERRED_CREDITS_DESER_ERROR`. -/
def deferredCreditsDeserError : String := "critical: deferred_credits deserialization failed"

/-- `DEFERRED_CREDITS_SER_ERROR`. -/
def deferredCreditsSerError : String := "critical: deferred_credits serialization failed"

/-- `COMPLETE_IDENT`. -/
def completeIdent : UInt8 := 0
/-- `RNG_SEED_IDENT`. -/
def rngSeedIdent : UInt8 := 1
/-- `FINAL_STATE_HASH_SNAPSHOT_IDENT`. -/
def finalStateHashSnapshotIdent : UInt8 := 2
/-- `ROLL_COUNT_IDENT`. -/
def rollCountIdent : UInt8 := 3
/-- `PROD_STATS_IDENT`. -/
def prodStatsIdent : UInt8 := 4
/-- `PROD_STATS_FAIL_IDENT`. -/
def prodStatsFailIdent : UInt8 := 0
/-- `PROD_STATS_SUCCESS_IDENT`. -/
def prodStatsSuccessIdent : UInt8 := 1

namespace PoSFinalState

/-- `cycle_history_cycle_prefix`: the prefix and the cycle in big-endian. -/
def cycleHistoryCyclePrefix (cycle : UInt64) : Bytes :=
  cycleHistoryPrefix ++ BigEndian.encode 8 cycle.toNat

/-- The `match rest_key[0]` of `is_cycle_history_key_value_valid`: the bytes
of the key after the identifier and the value, checked for each kind of
entry.  The deserializers it uses do not depend on the state's
configuration. -/
def isCycleInfoEntryValid (ident : UInt8) (afterIdent serializedValue : Bytes) : Bool :=
  if ident = completeIdent then
    afterIdent.isEmpty && serializedValue.length == 1 && decide (serializedValue.headD 0 ≤ 1)
  else if ident = rngSeedIdent then
    afterIdent.isEmpty && parsesFully bitVecDeserialize serializedValue
  else if ident = finalStateHashSnapshotIdent then
    afterIdent.isEmpty && parsesFully (optionDeserialize hashXofDeserialize) serializedValue
  else if ident = rollCountIdent then
    parsesFully addressDeserialize afterIdent &&
      parsesFully (u64VarIntDeserialize fun _ => true) serializedValue
  else if ident = prodStatsIdent then
    match addressDeserialize afterIdent with
    | some (_, [statsIdent]) =>
      (statsIdent == prodStatsFailIdent || statsIdent == prodStatsSuccessIdent) &&
        parsesFully (u64VarIntDeserialize fun _ => true) serializedValue
    | _ => false
  else false

/-- `PoSFinalState::is_cycle_history_key_value_valid`. -/
def isCycleHistoryKeyValueValid (serializedKey serializedValue : Bytes) : Except String Bool :=
  if !cycleHistoryPrefix.isPrefixOf serializedKey then .ok false
  else
    match bufToArrayCtr 8 (fun v => UInt64.ofNat (BigEndian.decode v.toList))
        (serializedKey.drop cycleHistoryPrefix.length) with
    | .error msg => .error msg
    | .ok none => .ok false
    | .ok (some (restKey, _cycle)) =>
      match restKey with
      | [] => .ok false
      | ident :: afterIdent => .ok (isCycleInfoEntryValid ident afterIdent serializedValue)

/-- `PoSFinalState::is_deferred_credits_key_value_valid`. -/
def isDeferredCreditsKeyValueValid (serializedKey serializedValue : Bytes) : Except String Bool :=
  if !deferredCreditsPrefix.isPrefixOf serializedKey then .ok false
  else
    match bufToArrayCtr Slot.slotKeySize Slot.fromBytesKey
        (serializedKey.drop deferredCreditsPrefix.length) with
    | .error msg => .error msg
    | .ok none => .ok false
    | .ok (some (restKey, _slot)) =>
      .ok (parsesFully addressDeserialize restKey && parsesFully amountDeserialize serializedValue)

/-- The fixed-width read after a prefix panics exactly on a key that has the
prefix and fewer than `n` bytes after it. -/
theorem prefixed_bufToArrayCtr_eq_error_iff {V : Type} {n : ℕ} (ctr : Vector UInt8 n → V)
    (pfx key : Bytes) (hpre : pfx <+: key) :
    (∃ msg, bufToArrayCtr n ctr (key.drop pfx.length) = .error msg) ↔
      key.length < pfx.length + n := by
  constructor
  · rintro ⟨msg, hmsg⟩
    by_contra hlong
    obtain ⟨v, -, hok⟩ := bufToArrayCtr_of_le ctr (key.drop pfx.length)
      (by rw [List.length_drop]; omega)
    rw [hok] at hmsg
    cases hmsg
  · intro hshort
    have hlen := hpre.length_le
    exact ⟨_, bufToArrayCtr_of_lt ctr (by rw [List.length_drop]; omega)⟩

/-- **Totality of the cycle-history validator.**  It panics exactly on a
key made of the prefix and fewer than eight bytes. -/
theorem isCycleHistoryKeyValueValid_eq_error_iff (serializedKey serializedValue : Bytes) :
    (∃ msg, isCycleHistoryKeyValueValid serializedKey serializedValue = .error msg) ↔
      cycleHistoryPrefix <+: serializedKey ∧
        serializedKey.length < cycleHistoryPrefix.length + 8 := by
  unfold isCycleHistoryKeyValueValid
  by_cases hpre : cycleHistoryPrefix <+: serializedKey
  · have hbool : cycleHistoryPrefix.isPrefixOf serializedKey = true :=
      List.isPrefixOf_iff_prefix.mpr hpre
    rw [if_neg (by simp [hbool]), ← prefixed_bufToArrayCtr_eq_error_iff _ _ _ hpre]
    simp only [hpre, true_and]
    -- only the panic of the fixed-width read is an error
    split
    · next msg hmsg => exact ⟨fun _ => ⟨msg, hmsg⟩, fun _ => ⟨msg, rfl⟩⟩
    · next hnone => exact ⟨fun ⟨_, h⟩ => (by cases h), fun ⟨_, h⟩ => (by rw [hnone] at h; cases h)⟩
    · next restKey _cycle hsome =>
      refine ⟨fun ⟨_, h⟩ => ?_, fun ⟨_, h⟩ => (by rw [hsome] at h; cases h)⟩
      split at h <;> cases h
  · have hbool : cycleHistoryPrefix.isPrefixOf serializedKey = false := by
      rw [Bool.eq_false_iff]
      exact fun h => hpre (List.isPrefixOf_iff_prefix.mp h)
    rw [if_pos (by simp [hbool])]
    simp only [hpre, false_and, iff_false]
    rintro ⟨_, h⟩
    cases h

/-- **Totality of the deferred-credits validator.**  It panics exactly on a
key made of the prefix and fewer than nine bytes. -/
theorem isDeferredCreditsKeyValueValid_eq_error_iff (serializedKey serializedValue : Bytes) :
    (∃ msg, isDeferredCreditsKeyValueValid serializedKey serializedValue = .error msg) ↔
      deferredCreditsPrefix <+: serializedKey ∧
        serializedKey.length < deferredCreditsPrefix.length + Slot.slotKeySize := by
  unfold isDeferredCreditsKeyValueValid
  by_cases hpre : deferredCreditsPrefix <+: serializedKey
  · have hbool : deferredCreditsPrefix.isPrefixOf serializedKey = true :=
      List.isPrefixOf_iff_prefix.mpr hpre
    rw [if_neg (by simp [hbool]), ← prefixed_bufToArrayCtr_eq_error_iff _ _ _ hpre]
    simp only [hpre, true_and]
    split
    · next msg hmsg => exact ⟨fun _ => ⟨msg, hmsg⟩, fun _ => ⟨msg, rfl⟩⟩
    · next hnone => exact ⟨fun ⟨_, h⟩ => (by cases h), fun ⟨_, h⟩ => (by rw [hnone] at h; cases h)⟩
    · next restKey _slot hsome =>
      exact ⟨fun ⟨_, h⟩ => (by cases h), fun ⟨_, h⟩ => (by rw [hsome] at h; cases h)⟩
  · have hbool : deferredCreditsPrefix.isPrefixOf serializedKey = false := by
      rw [Bool.eq_false_iff]
      exact fun h => hpre (List.isPrefixOf_iff_prefix.mp h)
    rw [if_pos (by simp [hbool])]
    simp only [hpre, false_and, iff_false]
    rintro ⟨_, h⟩
    cases h

/-- A key of the cycle-history prefix followed by three bytes, and one of
the deferred-credits prefix followed by three bytes, make the validators
panic on the slice `buf[N..]` instead of returning `false`. -/
theorem keyValueValid_short_key_panics :
    isCycleHistoryKeyValueValid (cycleHistoryPrefix ++ [0, 0, 1]) [1] =
        .error "range start index 8 out of range for slice of length 3" ∧
      isDeferredCreditsKeyValueValid (deferredCreditsPrefix ++ [0, 0, 1]) [1] =
        .error "range start index 9 out of range for slice of length 3" := by
  decide

/-! ### Deferred credits in the database -/

/-- The key `put_deferred_credits_entry` writes: `deferred_credits_key!` of
the slot key and the serialized address. -/
def deferredCreditsKey (slot : Slot) (address : Address) : Bytes :=
  deferredCreditsPrefix ++ (slot.toBytesKey ++ addressSerialize address)

/-- `PoSFinalState::put_deferred_credits_entry`: a zero amount deletes the
key. -/
def putDeferredCreditsEntry (batch : DBBatch) (slot : Slot) (address : Address)
    (amount : Amount) : DBBatch :=
  if amount.isZero then deleteKey batch (deferredCreditsKey slot address)
  else putOrUpdateEntryValue batch (deferredCreditsKey slot address) (amountSerialize amount)

/-- The start key of the scan of `get_deferred_credits_range`: an excluded
start is turned into the next slot, which panics past the last slot. -/
def deferredCreditsStartKey (threadCount : UInt8) : Bound Slot → Except String Bytes
  | .included slot => .ok (deferredCreditsPrefix ++ slot.toBytesKey)
  | .excluded slot =>
    match slot.getNextSlot threadCount with
    | .ok next => .ok (deferredCreditsPrefix ++ next.toBytesKey)
    | .error e => .error (deferredCreditsSerError ++ ": " ++ e.debug)
  | .unbounded => .ok deferredCreditsPrefix

/-- The loop of `get_deferred_credits_range` over the scanned entries: it
stops at the first slot out of the range and skips the addresses the filter
rejects; a failed deserialization panics. -/
def scanDeferredCredits (lo hi : Bound Slot) (addrFilter : Option Address) :
    List (Bytes × Bytes) → DeferredCredits → Except String DeferredCredits
  | [], acc => .ok acc
  | (serializedKey, serializedValue) :: rest, acc =>
    match bufToArrayCtr Slot.slotKeySize Slot.fromBytesKey
        (serializedKey.drop deferredCreditsPrefix.length) with
    | .error msg => .error msg
    | .ok none => .error deferredCreditsDeserError
    | .ok (some (restKey, slot)) =>
      if !Bound.contains lo hi slot then .ok acc
      else
        match addressDeserialize restKey with
        | none => .error deferredCreditsDeserError
        | some (address, _) =>
          if addrFilter.any (· != address) then scanDeferredCredits lo hi addrFilter rest acc
          else
            match amountDeserialize serializedValue with
            | none => .error deferredCreditsDeserError
            | some (amount, _) =>
              scanDeferredCredits lo hi addrFilter rest (acc.insert slot address amount)

/-- `PoSFinalState::get_deferred_credits_range`: a forward scan of the state
column from the start key, while the keys have the deferred-credits prefix. -/
def getDeferredCreditsRange (stateCf : SortedMap Bytes Bytes) (threadCount : UInt8)
    (lo hi : Bound Slot) (addrFilter : Option Address) : Except String DeferredCredits :=
  match deferredCreditsStartKey threadCount lo with
  | .error msg => .error msg
  | .ok startKey =>
    scanDeferredCredits lo hi addrFilter
      ((stateCf.iterFrom startKey).takeWhile fun e => deferredCreditsPrefix.isPrefixOf e.1) .new

/-- The deferred credits a state column holds: every key under the prefix is
one that `put_deferred_credits_entry` writes, for a slot of a thread below
`threadCount`, with a serialized amount. -/
def DeferredCreditsStored (threadCount : UInt8) (stateCf : SortedMap Bytes Bytes) : Prop :=
  ∀ key value, stateCf.get? key = some value → deferredCreditsPrefix <+: key →
    ∃ slot address amount, slot.thread.toNat < threadCount.toNat ∧
      key = deferredCreditsKey slot address ∧ value = amountSerialize amount

/-- The amount a state column stores for a slot and an address. -/
def storedDeferredCredit (stateCf : SortedMap Bytes Bytes) (slot : Slot) (address : Address) :
    Option Amount :=
  (stateCf.get? (deferredCreditsKey slot address)).bind fun value =>
    (amountDeserialize value).map Prod.fst

/-- A batch whose puts under the deferred-credits prefix are all credits that
`put_deferred_credits_entry` writes, for slots of threads below
`threadCount`. -/
def DeferredCreditsBatch (threadCount : UInt8) (batch : DBBatch) : Prop :=
  ∀ key value, batch.get? key = some (some value) → deferredCreditsPrefix <+: key →
    ∃ slot address amount, slot.thread.toNat < threadCount.toNat ∧
      key = deferredCreditsKey slot address ∧ value = amountSerialize amount

theorem deferredCreditsStored_empty (threadCount : UInt8) :
    DeferredCreditsStored threadCount ∅ := by
  intro key value hget
  cases hget

theorem deferredCreditsBatch_empty (threadCount : UInt8) : DeferredCreditsBatch threadCount ∅ := by
  intro key value hget
  cases hget

/-- **Step of the writer.**  `put_deferred_credits_entry` at a slot of a
valid thread adds a put of a credit or a delete. -/
theorem deferredCreditsBatch_putDeferredCreditsEntry {threadCount : UInt8} {batch : DBBatch}
    (h : DeferredCreditsBatch threadCount batch) {slot : Slot}
    (hslot : slot.thread.toNat < threadCount.toNat) (address : Address) (amount : Amount) :
    DeferredCreditsBatch threadCount (putDeferredCreditsEntry batch slot address amount) := by
  intro key value hget hpre
  unfold putDeferredCreditsEntry deleteKey putOrUpdateEntryValue at hget
  split_ifs at hget with hzero
  · -- a zero amount deletes the key
    rw [SortedMap.get?_insert] at hget
    split_ifs at hget with hkey
    · cases hget
    · exact h key value hget hpre
  · rw [SortedMap.get?_insert] at hget
    split_ifs at hget with hkey
    · cases hget
      exact ⟨slot, address, amount, hslot, hkey, rfl⟩
    · exact h key value hget hpre

/-- **Step of the database.**  Writing a batch of deferred credits keeps the
state column one of deferred credits. -/
theorem DeferredCreditsStored.writeAll {threadCount : UInt8} {stateCf : SortedMap Bytes Bytes}
    (hstored : DeferredCreditsStored threadCount stateCf) {batch : DBBatch}
    (hbatch : DeferredCreditsBatch threadCount batch) :
    DeferredCreditsStored threadCount (stateCf.writeAll batch.entries) := by
  intro key value hget hpre
  rw [SortedMap.get?_writeAll_entries] at hget
  cases hwrite : batch.get? key with
  | none =>
    rw [hwrite, Option.getD_none] at hget
    exact hstored key value hget hpre
  | some write =>
    rw [hwrite, Option.getD_some] at hget
    rw [hget] at hwrite
    exact hbatch key value hwrite hpre

theorem deferredCreditsKey_injective {s s' : Slot} {a a' : Address}
    (h : deferredCreditsKey s a = deferredCreditsKey s' a') : s = s' ∧ a = a' := by
  unfold deferredCreditsKey at h
  have htail := List.append_cancel_left h
  have hslot : s.toBytesKey = s'.toBytesKey :=
    List.append_inj_left htail (by rw [Slot.length_toBytesKey, Slot.length_toBytesKey])
  have hslot' := Slot.toBytesKey_injective hslot
  subst hslot'
  exact ⟨rfl, addressSerialize_injective (List.append_cancel_left htail)⟩

/-- Deferred-credit keys sort by slot first. -/
theorem deferredCreditsKey_lt_of_lt {s s' : Slot} (h : s < s') (a a' : Address) :
    deferredCreditsKey s a < deferredCreditsKey s' a' := by
  unfold deferredCreditsKey
  exact (List.append_lt_append_left_iff _ _ _).mpr (Slot.toBytesKey_append_lt_append h _ _)

theorem slot_le_of_deferredCreditsKey_le {s s' : Slot} {a a' : Address}
    (h : deferredCreditsKey s a ≤ deferredCreditsKey s' a') : s ≤ s' :=
  not_lt.mp fun hlt => not_le.mpr (deferredCreditsKey_lt_of_lt hlt a' a) h

/-- What the writer writes passes the validator. -/
theorem isDeferredCreditsKeyValueValid_key (slot : Slot) (address : Address) (amount : Amount) :
    isDeferredCreditsKeyValueValid (deferredCreditsKey slot address) (amountSerialize amount) =
      .ok true := by
  have hpre : deferredCreditsPrefix.isPrefixOf (deferredCreditsKey slot address) = true :=
    List.isPrefixOf_iff_prefix.mpr (List.prefix_append _ _)
  have hdrop : (deferredCreditsKey slot address).drop deferredCreditsPrefix.length =
      slot.toBytesKey ++ addressSerialize address := List.drop_left
  obtain ⟨v, -, hread⟩ := bufToArrayCtr_of_le Slot.fromBytesKey
    (slot.toBytesKey ++ addressSerialize address) (by simp)
  have hrest : (slot.toBytesKey ++ addressSerialize address).drop Slot.slotKeySize =
      addressSerialize address := List.drop_left' (Slot.length_toBytesKey slot)
  rw [isDeferredCreditsKeyValueValid, if_neg (by simp [hpre]), hdrop, hread, hrest]
  dsimp only
  rw [parsesFully_of_roundTrip (addressDeserialize_serialize address),
    parsesFully_of_roundTrip (amountDeserialize_serialize amount)]
  rfl

/-- **One turn of the scan** on an entry the writer wrote: a slot out of the
range stops it, an address the filter rejects is skipped, and any other entry
is inserted. -/
theorem scanDeferredCredits_cons (lo hi : Bound Slot) (addrFilter : Option Address)
    (slot : Slot) (address : Address) (amount : Amount) (rest : List (Bytes × Bytes))
    (acc : DeferredCredits) :
    scanDeferredCredits lo hi addrFilter
        ((deferredCreditsKey slot address, amountSerialize amount) :: rest) acc =
      if !Bound.contains lo hi slot then .ok acc
      else if addrFilter.any (· != address) then scanDeferredCredits lo hi addrFilter rest acc
      else scanDeferredCredits lo hi addrFilter rest (acc.insert slot address amount) := by
  have hdrop : (deferredCreditsKey slot address).drop deferredCreditsPrefix.length =
      slot.toBytesKey ++ addressSerialize address := List.drop_left
  obtain ⟨v, hv, hread⟩ := bufToArrayCtr_of_le Slot.fromBytesKey
    (slot.toBytesKey ++ addressSerialize address) (by simp)
  have hslot : Slot.fromBytesKey v = slot :=
    Slot.fromBytesKey_of_toList (by rw [hv, List.take_left' (Slot.length_toBytesKey slot)])
  have hrest : (slot.toBytesKey ++ addressSerialize address).drop Slot.slotKeySize =
      addressSerialize address := List.drop_left' (Slot.length_toBytesKey slot)
  have haddr := addressDeserialize_serialize address []
  have hamount := amountDeserialize_serialize amount []
  rw [List.append_nil] at haddr hamount
  rw [scanDeferredCredits, hdrop, hread, hrest, hslot]
  dsimp only
  split_ifs
  · rfl
  · rw [haddr]
    dsimp only
    rw [if_pos ‹_›]
  · rw [haddr]
    dsimp only
    rw [if_neg ‹_›, hamount]

/-- The start key is under the prefix. -/
theorem prefix_startKey {threadCount : UInt8} {lo : Bound Slot} {startKey : Bytes}
    (h : deferredCreditsStartKey threadCount lo = .ok startKey) :
    deferredCreditsPrefix <+: startKey := by
  cases lo with
  | included s =>
    cases h
    exact List.prefix_append _ _
  | excluded s =>
    rw [deferredCreditsStartKey] at h
    cases hnext : s.getNextSlot threadCount with
    | error e =>
      rw [hnext] at h
      cases h
    | ok next =>
      rw [hnext] at h
      cases h
      exact List.prefix_append _ _
  | unbounded =>
    cases h
    exact List.prefix_refl _

/-- The scan starts at the first key of a slot that the start bound
contains, among the slots of valid threads. -/
theorem startKey_le_iff {threadCount : UInt8} {lo : Bound Slot} {startKey : Bytes}
    (h : deferredCreditsStartKey threadCount lo = .ok startKey)
    (hlo : ∀ s, lo = .excluded s → s.thread.toNat < threadCount.toNat) {slot : Slot}
    (hslot : slot.thread.toNat < threadCount.toNat) (address : Address) :
    startKey ≤ deferredCreditsKey slot address ↔ lo.startContains slot = true := by
  cases lo with
  | included s =>
    cases h
    rw [deferredCreditsKey, List.append_le_append_left_iff, Slot.toBytesKey_le_append_iff]
    exact decide_eq_true_iff.symm
  | excluded s =>
    rw [deferredCreditsStartKey] at h
    cases hnext : s.getNextSlot threadCount with
    | error e =>
      rw [hnext] at h
      cases h
    | ok next =>
      rw [hnext] at h
      cases h
      rw [deferredCreditsKey, List.append_le_append_left_iff, Slot.toBytesKey_le_append_iff,
        ← Slot.lt_iff_getNextSlot_le (hlo s rfl) hnext hslot]
      exact decide_eq_true_iff.symm
  | unbounded =>
    cases h
    exact ⟨fun _ => rfl, fun _ => List.le_append_self _ _⟩

/-- The filter rejects exactly the addresses it does not accept. -/
theorem any_bne_eq_not_all_beq (addrFilter : Option Address) (address : Address) :
    addrFilter.any (· != address) = !(addrFilter.all (· == address)) := by
  cases addrFilter <;> rfl

/-- **The scan.**  Over entries that the writer wrote, in key order, with
slots the start bound contains, the loop reads for a slot and an address the
amount of its entry when the slot is below the end bound and the address
passes the filter: the early `break` drops nothing, since every entry after
the first slot out of the range has a slot at least as high. -/
theorem scanDeferredCredits_get {lo hi : Bound Slot} {addrFilter : Option Address}
    {l : List (Bytes × Bytes)} (hsorted : KeysSorted l)
    (hwritten : ∀ e ∈ l, ∃ slot address amount, lo.startContains slot = true ∧
      e = (deferredCreditsKey slot address, amountSerialize amount))
    (acc : DeferredCredits) :
    ∃ dc, scanDeferredCredits lo hi addrFilter l acc = .ok dc ∧
      ∀ address slot, dc.getAddressCreditsForSlot address slot =
        if hi.endContains slot = true ∧ addrFilter.all (· == address) = true then
          ((lookup (deferredCreditsKey slot address) l).bind fun value =>
            (amountDeserialize value).map Prod.fst).or (acc.getAddressCreditsForSlot address slot)
        else acc.getAddressCreditsForSlot address slot := by
  induction l generalizing acc with
  | nil =>
    refine ⟨acc, rfl, fun address slot => ?_⟩
    split_ifs <;> rfl
  | cons e l ih =>
    obtain ⟨s0, a0, x0, hstart0, rfl⟩ := hwritten e List.mem_cons_self
    obtain ⟨hhead, hrest⟩ := keysSorted_cons.mp hsorted
    have hwritten' := fun e he => hwritten e (List.mem_cons_of_mem _ he)
    -- the later entries have slots at least `s0`, and other keys
    have hlater : ∀ e ∈ l, ∀ slot address, e.1 = deferredCreditsKey slot address →
        s0 ≤ slot ∧ (slot, address) ≠ (s0, a0) := by
      intro e he slot address hkey
      have hlt := hhead e he
      rw [hkey] at hlt
      refine ⟨slot_le_of_deferredCreditsKey_le hlt.le, fun heq => ?_⟩
      rw [Prod.mk.injEq] at heq
      rw [heq.1, heq.2] at hlt
      exact lt_irrefl _ hlt
    have hlookup : ∀ slot address, (slot, address) ≠ (s0, a0) →
        lookup (deferredCreditsKey slot address)
            ((deferredCreditsKey s0 a0, amountSerialize x0) :: l) =
          lookup (deferredCreditsKey slot address) l := by
      intro slot address hne
      rw [lookup_cons, if_neg fun hkey => hne ?_]
      obtain ⟨hs, ha⟩ := deferredCreditsKey_injective hkey
      rw [hs, ha]
    rw [scanDeferredCredits_cons]
    by_cases hin : Bound.contains lo hi s0 = true
    · have hend0 : hi.endContains s0 = true := (Bool.and_eq_true_iff.mp hin).2
      rw [if_neg (by simp [hin])]
      by_cases hreject : addrFilter.any (· != a0) = true
      · -- `s0` is in the range but its address is filtered out
        rw [if_pos hreject]
        obtain ⟨dc, hscan, hget⟩ := ih hrest hwritten' acc
        refine ⟨dc, hscan, fun address slot => ?_⟩
        rw [hget]
        split_ifs with hcond
        · rw [hlookup slot address fun heq => ?_]
          rw [Prod.mk.injEq] at heq
          rw [any_bne_eq_not_all_beq, ← heq.2, hcond.2] at hreject
          cases hreject
        · rfl
      · -- the credit of `s0` is inserted
        rw [if_neg hreject]
        have hpass : addrFilter.all (· == a0) = true := by
          simpa [any_bne_eq_not_all_beq] using hreject
        obtain ⟨dc, hscan, hget⟩ := ih hrest hwritten' (acc.insert s0 a0 x0)
        refine ⟨dc, hscan, fun address slot => ?_⟩
        rw [hget, DeferredCredits.get_insert]
        by_cases hself : slot = s0 ∧ address = a0
        · obtain ⟨rfl, rfl⟩ := hself
          have hnone : lookup (deferredCreditsKey slot address) l = none :=
            lookup_eq_none_of_forall fun e he hkey => (hlater e he slot address hkey).2 rfl
          have hamount := amountDeserialize_serialize x0 []
          rw [List.append_nil] at hamount
          rw [if_pos ⟨hend0, hpass⟩, if_pos ⟨rfl, rfl⟩, if_pos ⟨hend0, hpass⟩, hnone, lookup_cons,
            if_pos rfl, Option.bind_some, hamount]
          rfl
        · rw [if_neg hself, hlookup slot address fun heq => hself (Prod.mk.inj heq)]
    · -- the first slot out of the range stops the scan, and no later slot is in it
      have hend0 : hi.endContains s0 = false := by
        simpa [Bound.contains, hstart0] using hin
      rw [if_pos (by simp [hin])]
      refine ⟨acc, rfl, fun address slot => ?_⟩
      split_ifs with hcond
      · have hnone : lookup (deferredCreditsKey slot address)
            ((deferredCreditsKey s0 a0, amountSerialize x0) :: l) = none := by
          refine lookup_eq_none_of_forall fun e he hkey => ?_
          rcases List.mem_cons.mp he with rfl | he
          · obtain ⟨rfl, -⟩ := deferredCreditsKey_injective hkey.symm
            rw [hcond.1] at hend0
            cases hend0
          · have hle := (hlater e he slot address hkey).1
            rw [Bound.endContains_of_le hcond.1 hle] at hend0
            cases hend0
        rw [hnone]
        rfl
      · rfl

/-- A start key exists unless the start is excluded at the last slot. -/
theorem deferredCreditsStartKey_eq_ok {threadCount : UInt8} {lo : Bound Slot}
    (hlo : ∀ s, lo = .excluded s → s.thread.toNat < threadCount.toNat ∧
      ¬(s.period.toNat = 2 ^ 64 - 1 ∧ s.thread.toNat + 1 = threadCount.toNat)) :
    ∃ startKey, deferredCreditsStartKey threadCount lo = .ok startKey := by
  cases lo with
  | included s => exact ⟨_, rfl⟩
  | excluded s =>
    obtain ⟨hs, hlast⟩ := hlo s rfl
    rw [deferredCreditsStartKey]
    cases hnext : s.getNextSlot threadCount with
    | error e => exact absurd ((Slot.getNextSlot_eq_error_iff hs).mp ⟨e, hnext⟩) hlast
    | ok next => exact ⟨_, rfl⟩
  | unbounded => exact ⟨_, rfl⟩

/-- Having the deferred-credits prefix holds on intervals of keys. -/
theorem isPrefixOf_interval (a b c : Bytes) (ha : deferredCreditsPrefix.isPrefixOf a = true)
    (hc : deferredCreditsPrefix.isPrefixOf c = true) (hab : a ≤ b) (hbc : b ≤ c) :
    deferredCreditsPrefix.isPrefixOf b = true :=
  List.isPrefixOf_iff_prefix.mpr (List.IsPrefix.of_le_of_le (List.isPrefixOf_iff_prefix.mp ha)
    (List.isPrefixOf_iff_prefix.mp hc) hab hbc)

/-- **The range scan.**  Over the deferred credits that a state column holds,
a range whose excluded start has a next slot reads, for every slot and
address, the stored amount when the range holds the slot and the filter the
address, and nothing otherwise. -/
theorem getDeferredCreditsRange_eq {threadCount : UInt8} {stateCf : SortedMap Bytes Bytes}
    (hstored : DeferredCreditsStored threadCount stateCf) {lo : Bound Slot}
    (hlo : ∀ s, lo = .excluded s → s.thread.toNat < threadCount.toNat ∧
      ¬(s.period.toNat = 2 ^ 64 - 1 ∧ s.thread.toNat + 1 = threadCount.toNat))
    (hi : Bound Slot) (addrFilter : Option Address) :
    ∃ dc, getDeferredCreditsRange stateCf threadCount lo hi addrFilter = .ok dc ∧
      ∀ address slot, dc.getAddressCreditsForSlot address slot =
        if Bound.contains lo hi slot = true ∧ addrFilter.all (· == address) = true then
          storedDeferredCredit stateCf slot address
        else none := by
  obtain ⟨startKey, hstart⟩ := deferredCreditsStartKey_eq_ok hlo
  have hthreads : ∀ s, lo = .excluded s → s.thread.toNat < threadCount.toNat :=
    fun s hs => (hlo s hs).1
  have hpre : deferredCreditsPrefix.isPrefixOf startKey = true :=
    List.isPrefixOf_iff_prefix.mpr (prefix_startKey hstart)
  -- the scanned entries are written credits of slots from the start on
  have hwritten : ∀ e ∈ (stateCf.iterFrom startKey).takeWhile
      (fun e => deferredCreditsPrefix.isPrefixOf e.1),
      ∃ slot address amount, lo.startContains slot = true ∧
        e = (deferredCreditsKey slot address, amountSerialize amount) := by
    intro e he
    obtain ⟨hentry, hle, hprefix⟩ :=
      (stateCf.mem_takeWhile_iterFrom isPrefixOf_interval hpre e).mp he
    obtain ⟨slot, address, amount, hthread, hkey, hvalue⟩ := hstored e.1 e.2
      ((stateCf.mem_entries_iff _ _).mp hentry) (List.isPrefixOf_iff_prefix.mp hprefix)
    rw [hkey] at hle
    refine ⟨slot, address, amount, (startKey_le_iff hstart hthreads hthread address).mp hle, ?_⟩
    rw [← hkey, ← hvalue]
  obtain ⟨dc, hscan, hget⟩ := scanDeferredCredits_get
    (stateCf.keysSorted_takeWhile_iterFrom startKey _) hwritten .new
  refine ⟨dc, ?_, fun address slot => ?_⟩
  · rw [getDeferredCreditsRange, hstart]
    exact hscan
  · have hkeyPrefix : deferredCreditsPrefix.isPrefixOf (deferredCreditsKey slot address) = true :=
      List.isPrefixOf_iff_prefix.mpr (List.prefix_append _ _)
    rw [hget, SortedMap.lookup_takeWhile_iterFrom_of_interval stateCf isPrefixOf_interval hpre,
      DeferredCredits.get_new, Bound.contains, storedDeferredCredit]
    cases hread : stateCf.get? (deferredCreditsKey slot address) with
    | none => split_ifs <;> rfl
    | some value =>
      -- a stored key is a slot of a valid thread, where the start key compares as the slot
      obtain ⟨slot', address', amount, hthread, hkey, -⟩ :=
        hstored _ _ hread (List.prefix_append _ _)
      obtain ⟨rfl, rfl⟩ := deferredCreditsKey_injective hkey
      have hle := startKey_le_iff hstart hthreads hthread address
      by_cases hs : lo.startContains slot = true <;> simp [hs, hle, hkeyPrefix]

/-- The credits of a range over one written credit, started after the slot
before it. -/
theorem getDeferredCreditsRange_eq_after_slot :
    let stateCf := (∅ : SortedMap Bytes Bytes).writeAll
      (putDeferredCreditsEntry ∅ ⟨5, 3⟩ zeroAddress ⟨7⟩).entries
    ∃ dc, getDeferredCreditsRange stateCf 32 (.excluded ⟨5, 2⟩) .unbounded none = .ok dc ∧
      ∀ address slot, dc.getAddressCreditsForSlot address slot =
        if Bound.contains (.excluded (⟨5, 2⟩ : Slot)) .unbounded slot = true ∧
            (none : Option Address).all (· == address) = true then
          storedDeferredCredit stateCf slot address
        else none := by
  intro stateCf
  exact getDeferredCreditsRange_eq
    ((deferredCreditsStored_empty 32).writeAll
      (deferredCreditsBatch_putDeferredCreditsEntry (deferredCreditsBatch_empty 32) (by decide) _ _))
    (fun s hs => by cases hs; decide) _ _

/-- Two inputs where the scan does not return the stored credits of the
range: an excluded start at the last slot panics for every thread count,
and a credit stored at a thread past the thread count, just after an
excluded start at the last thread, is skipped, since the scan starts at the
next period. -/
theorem getDeferredCreditsRange_misses_range_credits :
    (∀ (stateCf : SortedMap Bytes Bytes) (threadCount : UInt8) (hi : Bound Slot)
        (addrFilter : Option Address),
      getDeferredCreditsRange stateCf threadCount
          (.excluded ⟨UInt64.ofNat (2 ^ 64 - 1), threadCount - 1⟩) hi addrFilter =
        .error (deferredCreditsSerError ++ ": PeriodOverflowError")) ∧
    let stateCf := (∅ : SortedMap Bytes Bytes).writeAll
      (putDeferredCreditsEntry ∅ ⟨5, 32⟩ zeroAddress ⟨7⟩).entries
    Bound.contains (.excluded (⟨5, 31⟩ : Slot)) .unbounded (⟨5, 32⟩ : Slot) = true ∧
      storedDeferredCredit stateCf ⟨5, 32⟩ zeroAddress = some ⟨7⟩ ∧
      ((getDeferredCreditsRange stateCf 32 (.excluded ⟨5, 31⟩) .unbounded none).toOption.map
        fun dc => dc.getAddressCreditsForSlot zeroAddress ⟨5, 32⟩) = some none := by
  refine ⟨fun stateCf threadCount hi addrFilter => ?_, ?_⟩
  · rw [getDeferredCreditsRange, deferredCreditsStartKey, Slot.getNextSlot_last]
    rfl
  · decide +kernel

end PoSFinalState

/-! ### The final PoS state as the execution reads it -/

/-- `CYCLE_HISTORY_DESER_ERROR`. -/
def cycleHistoryDeserError : String := "critical: cycle_history deserialization failed"

/-- `roll_count_key!`: the cycle prefix, the identifier and the address. -/
def rollCountKey (cyclePrefix : Bytes) (addr : Address) : Bytes :=
  cyclePrefix ++ [rollCountIdent] ++ addressSerialize addr

/-- `PoSFinalState`, with what the execution's reads use: the state column of
its database, the thread count of its config, and `cycle_history_cache`
(each cycle with whether it is complete), oldest first. -/
structure PoSFinalState where
  stateCf : SortedMap Bytes Bytes
  threadCount : UInt8
  cycleHistoryCache : List (UInt64 × Bool)

namespace PoSFinalState

/-- `PoSFinalState::get_rolls_for`: the roll count stored for the last cycle
of the cache, `0` when there is none. -/
def getRollsFor (self : PoSFinalState) (addr : Address) : Except String UInt64 :=
  match self.cycleHistoryCache.getLast? with
  | none => .ok 0
  | some (cycle, _) =>
    match self.stateCf.get? (rollCountKey (cycleHistoryCyclePrefix cycle) addr) with
    | none => .ok 0
    | some serializedValue =>
      match u64VarIntDeserialize (fun _ => true) serializedValue with
      | some (amount, _) => .ok amount.toUInt64
      | none => .error cycleHistoryDeserError

/-- `PoSFinalState::get_address_credits_for_slot`. -/
def getAddressCreditsForSlot (self : PoSFinalState) (addr : Address) (slot : Slot) :
    Except String (Option Amount) :=
  match self.stateCf.get? (deferredCreditsKey slot addr) with
  | some serializedAmount =>
    match amountDeserialize serializedAmount with
    | some (amount, _) => .ok (some amount)
    | none => .error deferredCreditsDeserError
  | none => .ok none

/-- The final state holds the deferred credits `credits`: its state column
holds the entries `put_deferred_credits_entry` writes, and they read as
`credits`. -/
def Holds (self : PoSFinalState) (credits : DeferredCredits) : Prop :=
  DeferredCreditsStored self.threadCount self.stateCf ∧
    ∀ address slot, storedDeferredCredit self.stateCf slot address =
      credits.getAddressCreditsForSlot address slot

/-- A stored credit reads without panicking. -/
theorem getAddressCreditsForSlot_eq {self : PoSFinalState}
    (hstored : DeferredCreditsStored self.threadCount self.stateCf) (addr : Address) (slot : Slot) :
    self.getAddressCreditsForSlot addr slot = .ok (storedDeferredCredit self.stateCf slot addr) := by
  unfold getAddressCreditsForSlot storedDeferredCredit
  cases hread : self.stateCf.get? (deferredCreditsKey slot addr) with
  | none => rfl
  | some value =>
    obtain ⟨-, -, amount, -, -, rfl⟩ := hstored _ _ hread (List.prefix_append _ _)
    have hamount := amountDeserialize_serialize amount []
    rw [List.append_nil] at hamount
    dsimp only
    rw [Option.bind_some, hamount]
    rfl

/-! ### Writing the cycle history

`put_new_cycle_info` writes a cycle's entries under the cycle's prefix with
the writers below.  Each pair they put, and each credit that
`put_deferred_credits_entry` puts, passes the validator that a bootstrapping
node runs on it, so a column written by them passes too
(`posBatchValid_writers`). -/

/-- `CYCLE_HISTORY_SER_ERROR`. -/
def cycleHistorySerError : String := "critical: cycle_history serialization failed"

/-- The key of one of a cycle's own entries: the cycle prefix and the
identifier. -/
def cycleInfoKey (cyclePrefix : Bytes) (ident : UInt8) : Bytes := cyclePrefix ++ [ident]

/-- `complete_key!`. -/
def completeKey (cyclePrefix : Bytes) : Bytes := cycleInfoKey cyclePrefix completeIdent

/-- `rng_seed_key!`. -/
def rngSeedKey (cyclePrefix : Bytes) : Bytes := cycleInfoKey cyclePrefix rngSeedIdent

/-- `final_state_hash_snapshot_key!`. -/
def finalStateHashSnapshotKey (cyclePrefix : Bytes) : Bytes :=
  cycleInfoKey cyclePrefix finalStateHashSnapshotIdent

/-- The key of a production count of an address: the cycle prefix, the
identifier, the address and the kind of count. -/
def prodStatsKey (cyclePrefix : Bytes) (addr : Address) (statsIdent : UInt8) : Bytes :=
  cyclePrefix ++ [prodStatsIdent] ++ addressSerialize addr ++ [statsIdent]

/-- `prod_stats_fail_key!`. -/
def prodStatsFailKey (cyclePrefix : Bytes) (addr : Address) : Bytes :=
  prodStatsKey cyclePrefix addr prodStatsFailIdent

/-- `prod_stats_success_key!`. -/
def prodStatsSuccessKey (cyclePrefix : Bytes) (addr : Address) : Bytes :=
  prodStatsKey cyclePrefix addr prodStatsSuccessIdent

/-- `CycleInfo`.  The production statistics, a `PreHashMap`, are iterated
here in key order: their writes go to distinct keys. -/
structure CycleInfo where
  cycle : UInt64
  complete : Bool
  rollCounts : SortedMap Address UInt64
  rngSeed : List Bool
  productionStats : SortedMap Address ProductionStats
  finalStateHashSnapshot : Option HashXof

/-- `PoSFinalState::get_cycle_index`: the position of a cycle in the cache,
counted from its first cycle.  The conversion to `usize` cannot fail on a
64-bit target. -/
def getCycleIndex (self : PoSFinalState) (cycle : UInt64) : Option ℕ :=
  match self.cycleHistoryCache.head? with
  | none => none
  | some (firstCycle, _) =>
    if cycle < firstCycle then none
    else if self.cycleHistoryCache.length ≤ (cycle - firstCycle).toNat then none
    else some (cycle - firstCycle).toNat

/-- `PoSFinalState::put_cycle_history_complete`: the flag as one byte, and
the flag of the cycle in the cache when the cache holds it. -/
def putCycleHistoryComplete (self : PoSFinalState) (cycle : UInt64) (value : Bool)
    (batch : DBBatch) : PoSFinalState × DBBatch :=
  let batch := putOrUpdateEntryValue batch (completeKey (cycleHistoryCyclePrefix cycle))
    (if value then [1] else [0])
  match self.getCycleIndex cycle with
  | some index =>
    ({ self with cycleHistoryCache := self.cycleHistoryCache.modify index fun c => (c.1, value) },
      batch)
  | none => (self, batch)

/-- `PoSFinalState::put_cycle_history_final_state_hash_snapshot`. -/
def putCycleHistoryFinalStateHashSnapshot (cycle : UInt64) (value : Option HashXof)
    (batch : DBBatch) : DBBatch :=
  putOrUpdateEntryValue batch (finalStateHashSnapshotKey (cycleHistoryCyclePrefix cycle))
    (optionSerialize hashXofSerialize value)

/-- `PoSFinalState::put_cycle_history_rng_seed`: the serializer fails on a
seed of `2 ^ 32` bits or more, where `expect` panics.  The `rng_seed_cache`
it also sets is not modelled. -/
def putCycleHistoryRngSeed (cycle : UInt64) (value : List Bool) (batch : DBBatch) :
    Except String DBBatch :=
  match bitVecSerialize value with
  | some serializedValue =>
    .ok (putOrUpdateEntryValue batch (rngSeedKey (cycleHistoryCyclePrefix cycle)) serializedValue)
  | none => .error cycleHistorySerError

/-- `PoSFinalState::put_cycle_history_address_entry`: a roll count of zero
deletes its key. -/
def putCycleHistoryAddressEntry (cycle : UInt64) (address : Address)
    (rollCount : Option UInt64) (productionStats : Option ProductionStats) (batch : DBBatch) :
    DBBatch :=
  let cyclePrefix := cycleHistoryCyclePrefix cycle
  let batch :=
    match rollCount with
    | some rolls =>
      if rolls = 0 then deleteKey batch (rollCountKey cyclePrefix address)
      else putOrUpdateEntryValue batch (rollCountKey cyclePrefix address) (u64VarIntSerialize rolls)
    | none => batch
  match productionStats with
  | some stats =>
    putOrUpdateEntryValue
      (putOrUpdateEntryValue batch (prodStatsFailKey cyclePrefix address)
        (u64VarIntSerialize stats.blockFailureCount))
      (prodStatsSuccessKey cyclePrefix address) (u64VarIntSerialize stats.blockSuccessCount)
  | none => batch

/-- `PoSFinalState::put_new_cycle_info`: the cycle's entries, then the cycle
pushed on the cache. -/
def putNewCycleInfo (self : PoSFinalState) (cycleInfo : CycleInfo) (batch : DBBatch) :
    Except String (PoSFinalState × DBBatch) := do
  let (self, batch) := self.putCycleHistoryComplete cycleInfo.cycle cycleInfo.complete batch
  let batch ← putCycleHistoryRngSeed cycleInfo.cycle cycleInfo.rngSeed batch
  let batch := putCycleHistoryFinalStateHashSnapshot cycleInfo.cycle
    cycleInfo.finalStateHashSnapshot batch
  let batch := cycleInfo.rollCounts.entries.foldl
    (fun batch e => putCycleHistoryAddressEntry cycleInfo.cycle e.1 (some e.2) none batch) batch
  let batch := cycleInfo.productionStats.entries.foldl
    (fun batch e => putCycleHistoryAddressEntry cycleInfo.cycle e.1 none (some e.2) batch) batch
  pure ({ self with cycleHistoryCache :=
    self.cycleHistoryCache ++ [(cycleInfo.cycle, cycleInfo.complete)] }, batch)

/-- What `put_cycle_history_complete` writes, whether or not the cache holds
the cycle. -/
theorem putCycleHistoryComplete_snd (self : PoSFinalState) (cycle : UInt64) (value : Bool)
    (batch : DBBatch) :
    (self.putCycleHistoryComplete cycle value batch).2 =
      putOrUpdateEntryValue batch (completeKey (cycleHistoryCyclePrefix cycle))
        (if value then [1] else [0]) := by
  unfold putCycleHistoryComplete
  cases self.getCycleIndex cycle <;> rfl

/-- A `put_new_cycle_info` that does not panic wrote the seed, then the
snapshot and the two loops of address entries. -/
theorem putNewCycleInfo_eq_ok {self : PoSFinalState} {cycleInfo : CycleInfo} {batch : DBBatch}
    {next : PoSFinalState × DBBatch} (h : self.putNewCycleInfo cycleInfo batch = .ok next) :
    ∃ seeded, putCycleHistoryRngSeed cycleInfo.cycle cycleInfo.rngSeed
        (self.putCycleHistoryComplete cycleInfo.cycle cycleInfo.complete batch).2 = .ok seeded ∧
      next.2 = cycleInfo.productionStats.entries.foldl
        (fun batch e => putCycleHistoryAddressEntry cycleInfo.cycle e.1 none (some e.2) batch)
        (cycleInfo.rollCounts.entries.foldl
          (fun batch e => putCycleHistoryAddressEntry cycleInfo.cycle e.1 (some e.2) none batch)
          (putCycleHistoryFinalStateHashSnapshot cycleInfo.cycle cycleInfo.finalStateHashSnapshot
            seeded)) := by
  unfold putNewCycleInfo at h
  rcases hc : self.putCycleHistoryComplete cycleInfo.cycle cycleInfo.complete batch with
    ⟨self', completed⟩
  rw [hc] at h
  dsimp only at h
  cases hseed : putCycleHistoryRngSeed cycleInfo.cycle cycleInfo.rngSeed completed with
  | error e =>
    rw [hseed] at h
    cases h
  | ok seeded =>
    rw [hseed] at h
    cases h
    exact ⟨seeded, rfl, rfl⟩

/-- A pair passes the validator of the PoS prefix it is under. -/
def PosPairValid (key value : Bytes) : Prop :=
  (cycleHistoryPrefix <+: key → isCycleHistoryKeyValueValid key value = .ok true) ∧
    (deferredCreditsPrefix <+: key → isDeferredCreditsKeyValueValid key value = .ok true)

/-- Every put of a batch passes the validator of its PoS prefix. -/
def PosBatchValid (batch : DBBatch) : Prop :=
  ∀ key value, batch.get? key = some (some value) → PosPairValid key value

/-- Every pair of a state column passes the validator of its PoS prefix. -/
def PosStoredValid (stateCf : SortedMap Bytes Bytes) : Prop :=
  ∀ key value, stateCf.get? key = some value → PosPairValid key value

/-- No key is under both PoS prefixes: they differ in their first byte. -/
theorem not_deferredCreditsPrefix_of_cycleHistoryPrefix {key : Bytes}
    (h : cycleHistoryPrefix <+: key) : ¬deferredCreditsPrefix <+: key := by
  intro h'
  have hpre : cycleHistoryPrefix <+: deferredCreditsPrefix :=
    List.prefix_of_prefix_length_le h h' (by decide)
  exact absurd hpre (by decide)

/-- On a key under a cycle's prefix, the validator checks the entry by its
identifier. -/
theorem isCycleHistoryKeyValueValid_cycleKey (cycle : UInt64) (ident : UInt8)
    (afterIdent value : Bytes) :
    isCycleHistoryKeyValueValid (cycleHistoryCyclePrefix cycle ++ ident :: afterIdent) value =
      .ok (isCycleInfoEntryValid ident afterIdent value) := by
  have hpre : cycleHistoryPrefix.isPrefixOf (cycleHistoryCyclePrefix cycle ++ ident :: afterIdent) =
      true := by
    rw [cycleHistoryCyclePrefix, List.append_assoc]
    exact List.isPrefixOf_iff_prefix.mpr (List.prefix_append _ _)
  have hdrop : (cycleHistoryCyclePrefix cycle ++ ident :: afterIdent).drop
      cycleHistoryPrefix.length = BigEndian.encode 8 cycle.toNat ++ ident :: afterIdent := by
    rw [cycleHistoryCyclePrefix, List.append_assoc, List.drop_left]
  obtain ⟨v, -, hread⟩ := bufToArrayCtr_of_le
    (fun v : Vector UInt8 8 => UInt64.ofNat (BigEndian.decode v.toList))
    (BigEndian.encode 8 cycle.toNat ++ ident :: afterIdent) (by simp)
  have hrest : (BigEndian.encode 8 cycle.toNat ++ ident :: afterIdent).drop 8 =
      ident :: afterIdent := List.drop_left' (BigEndian.length_encode 8 _)
  rw [isCycleHistoryKeyValueValid, if_neg (by simp [hpre]), hdrop, hread, hrest]

/-- A valid entry under a cycle's prefix is a valid pair. -/
theorem posPairValid_cycleKey {cycle : UInt64} {ident : UInt8} {afterIdent value : Bytes}
    (h : isCycleInfoEntryValid ident afterIdent value = true) :
    PosPairValid (cycleHistoryCyclePrefix cycle ++ ident :: afterIdent) value := by
  have hpre : cycleHistoryPrefix <+: cycleHistoryCyclePrefix cycle ++ ident :: afterIdent := by
    rw [cycleHistoryCyclePrefix, List.append_assoc]
    exact List.prefix_append _ _
  refine ⟨fun _ => ?_, fun hdef => absurd hdef (not_deferredCreditsPrefix_of_cycleHistoryPrefix hpre)⟩
  rw [isCycleHistoryKeyValueValid_cycleKey, h]

/-- A credit `put_deferred_credits_entry` writes is a valid pair. -/
theorem posPairValid_deferredCreditsKey (slot : Slot) (address : Address) (amount : Amount) :
    PosPairValid (deferredCreditsKey slot address) (amountSerialize amount) := by
  have hpre : deferredCreditsPrefix <+: deferredCreditsKey slot address := List.prefix_append _ _
  refine ⟨fun hcycle => absurd hpre (not_deferredCreditsPrefix_of_cycleHistoryPrefix hcycle),
    fun _ => isDeferredCreditsKeyValueValid_key slot address amount⟩

theorem posBatchValid_empty : PosBatchValid ∅ := by
  intro key value hget
  cases hget

namespace PosBatchValid

variable {batch : DBBatch}

theorem put (h : PosBatchValid batch) {key value : Bytes} (hkv : PosPairValid key value) :
    PosBatchValid (putOrUpdateEntryValue batch key value) := by
  intro key' value' hget
  rw [putOrUpdateEntryValue, SortedMap.get?_insert] at hget
  split_ifs at hget with hkey
  · cases hget
    exact hkey ▸ hkv
  · exact h key' value' hget

theorem delete (h : PosBatchValid batch) (key : Bytes) : PosBatchValid (deleteKey batch key) := by
  intro key' value' hget
  rw [deleteKey, SortedMap.get?_insert] at hget
  split_ifs at hget
  · cases hget
  · exact h key' value' hget

/-- **Step of each writer.** -/
theorem putCycleHistoryComplete (h : PosBatchValid batch) (self : PoSFinalState) (cycle : UInt64)
    (value : Bool) : PosBatchValid (self.putCycleHistoryComplete cycle value batch).2 := by
  rw [putCycleHistoryComplete_snd]
  apply h.put (@posPairValid_cycleKey cycle completeIdent [] _ _)
  cases value <;> decide

theorem putCycleHistoryRngSeed (h : PosBatchValid batch) {cycle : UInt64} {value : List Bool}
    {next : DBBatch} (hnext : putCycleHistoryRngSeed cycle value batch = .ok next) :
    PosBatchValid next := by
  unfold PoSFinalState.putCycleHistoryRngSeed at hnext
  split at hnext
  · next serializedValue hser =>
    cases hnext
    -- the seed reads back with the bit-vector deserializer
    have hparse := parsesFully_of_roundTrip (bitVecDeserialize_serialize hser)
    apply h.put (@posPairValid_cycleKey cycle rngSeedIdent [] _ _)
    rw [isCycleInfoEntryValid, if_neg (by decide), if_pos rfl, hparse]
    rfl
  · cases hnext

theorem putCycleHistoryFinalStateHashSnapshot (h : PosBatchValid batch) (cycle : UInt64)
    (value : Option HashXof) :
    PosBatchValid (putCycleHistoryFinalStateHashSnapshot cycle value batch) := by
  have hparse := parsesFully_of_roundTrip
    (@optionDeserialize_serialize _ hashXofSerialize hashXofDeserialize value
      fun v _ rest => hashXofDeserialize_serialize v rest)
  apply h.put (@posPairValid_cycleKey cycle finalStateHashSnapshotIdent [] _ _)
  rw [isCycleInfoEntryValid, if_neg (by decide), if_neg (by decide), if_pos rfl, hparse]
  rfl

/-- A roll count put under its key is valid. -/
theorem putRollCount (h : PosBatchValid batch) (cycle : UInt64) (address : Address)
    (rolls : UInt64) :
    PosBatchValid (putOrUpdateEntryValue batch (rollCountKey (cycleHistoryCyclePrefix cycle) address)
      (u64VarIntSerialize rolls)) := by
  have hkey : rollCountKey (cycleHistoryCyclePrefix cycle) address =
      cycleHistoryCyclePrefix cycle ++ rollCountIdent :: addressSerialize address := by
    simp [rollCountKey]
  rw [hkey]
  apply h.put (posPairValid_cycleKey _)
  rw [isCycleInfoEntryValid, if_neg (by decide), if_neg (by decide), if_neg (by decide),
    if_pos rfl, parsesFully_of_roundTrip (addressDeserialize_serialize address),
    parsesFully_of_roundTrip (u64VarIntDeserialize_serialize rfl)]
  rfl

/-- A production count put under its key, of either kind, is valid. -/
theorem putProdStats (h : PosBatchValid batch) (cycle : UInt64) (address : Address)
    {statsIdent : UInt8} (hident : statsIdent = prodStatsFailIdent ∨ statsIdent = prodStatsSuccessIdent)
    (n : UInt64) :
    PosBatchValid (putOrUpdateEntryValue batch
      (prodStatsKey (cycleHistoryCyclePrefix cycle) address statsIdent) (u64VarIntSerialize n)) := by
  have hkey : prodStatsKey (cycleHistoryCyclePrefix cycle) address statsIdent =
      cycleHistoryCyclePrefix cycle ++ prodStatsIdent :: (addressSerialize address ++ [statsIdent]) := by
    simp [prodStatsKey]
  rw [hkey]
  apply h.put (posPairValid_cycleKey _)
  -- the address, then one byte naming the count
  rw [isCycleInfoEntryValid, if_neg (by decide), if_neg (by decide), if_neg (by decide),
    if_neg (by decide), if_pos rfl, addressDeserialize_serialize,
    parsesFully_of_roundTrip (u64VarIntDeserialize_serialize rfl)]
  rcases hident with rfl | rfl <;> rfl

theorem putCycleHistoryAddressEntry (h : PosBatchValid batch) (cycle : UInt64) (address : Address)
    (rollCount : Option UInt64) (productionStats : Option ProductionStats) :
    PosBatchValid (putCycleHistoryAddressEntry cycle address rollCount productionStats batch) := by
  -- the roll count first: a delete for zero, a put otherwise
  have hrolls : PosBatchValid (match rollCount with
      | some rolls =>
        if rolls = 0 then deleteKey batch (rollCountKey (cycleHistoryCyclePrefix cycle) address)
        else putOrUpdateEntryValue batch (rollCountKey (cycleHistoryCyclePrefix cycle) address)
          (u64VarIntSerialize rolls)
      | none => batch) := by
    rcases rollCount with _ | rolls
    · exact h
    · dsimp only
      split_ifs
      · exact h.delete _
      · exact h.putRollCount cycle address rolls
  unfold PoSFinalState.putCycleHistoryAddressEntry
  rcases productionStats with _ | stats
  · exact hrolls
  · exact (hrolls.putProdStats cycle address (.inl rfl) _).putProdStats cycle address (.inr rfl) _

/-- **Step of `put_new_cycle_info`**, from the steps of its writers. -/
theorem putNewCycleInfo (h : PosBatchValid batch) {self : PoSFinalState} {cycleInfo : CycleInfo}
    {next : PoSFinalState × DBBatch} (hnext : self.putNewCycleInfo cycleInfo batch = .ok next) :
    PosBatchValid next.2 := by
  obtain ⟨seeded, hseed, hbatch⟩ := putNewCycleInfo_eq_ok hnext
  rw [hbatch]
  have hseeded := (h.putCycleHistoryComplete self cycleInfo.cycle cycleInfo.complete
    ).putCycleHistoryRngSeed hseed
  have hsnapshot := hseeded.putCycleHistoryFinalStateHashSnapshot cycleInfo.cycle
    cycleInfo.finalStateHashSnapshot
  -- the two loops of address entries, each entry one step
  have hrolls := List.foldlRecOn (motive := PosBatchValid) cycleInfo.rollCounts.entries _
    hsnapshot fun b hb e _ => hb.putCycleHistoryAddressEntry cycleInfo.cycle e.1 (some e.2) none
  exact List.foldlRecOn (motive := PosBatchValid) cycleInfo.productionStats.entries _ hrolls
    fun b hb e _ => hb.putCycleHistoryAddressEntry cycleInfo.cycle e.1 none (some e.2)

theorem putDeferredCreditsEntry (h : PosBatchValid batch) (slot : Slot) (address : Address)
    (amount : Amount) : PosBatchValid (putDeferredCreditsEntry batch slot address amount) := by
  unfold PoSFinalState.putDeferredCreditsEntry
  split_ifs
  · exact h.delete _
  · exact h.put (posPairValid_deferredCreditsKey slot address amount)

end PosBatchValid

/-- **Step of the database.**  Writing a batch whose puts are valid keeps the
column valid. -/
theorem PosStoredValid.writeAll {stateCf : SortedMap Bytes Bytes} (hstored : PosStoredValid stateCf)
    {batch : DBBatch} (hbatch : PosBatchValid batch) :
    PosStoredValid (stateCf.writeAll batch.entries) := by
  intro key value hget
  rw [SortedMap.get?_writeAll_entries] at hget
  cases hwrite : batch.get? key with
  | none =>
    rw [hwrite, Option.getD_none] at hget
    exact hstored key value hget
  | some write =>
    rw [hwrite, Option.getD_some] at hget
    rw [hget] at hwrite
    exact hbatch key value hwrite

/-- **What the PoS writers write passes the bootstrap validators.**  From an
empty batch, every batch built by `put_new_cycle_info` and
`put_deferred_credits_entry` holds only puts that `is_cycle_history_key_value_valid`
and `is_deferred_credits_key_value_valid` accept, and writing such batches
keeps every pair of the state column under the two prefixes accepted: the
validators neither reject nor panic on what a node stores. -/
theorem posBatchValid_writers :
    PosBatchValid ∅ ∧
      (∀ batch, PosBatchValid batch → ∀ (self : PoSFinalState) cycleInfo next,
        self.putNewCycleInfo cycleInfo batch = .ok next → PosBatchValid next.2) ∧
      (∀ batch, PosBatchValid batch → ∀ slot address amount,
        PosBatchValid (putDeferredCreditsEntry batch slot address amount)) ∧
      PosStoredValid ∅ ∧
      ∀ stateCf batch, PosStoredValid stateCf → PosBatchValid batch →
        PosStoredValid (stateCf.writeAll batch.entries) := by
  refine ⟨posBatchValid_empty, fun batch h self cycleInfo next hnext => h.putNewCycleInfo hnext,
    fun batch h => h.putDeferredCreditsEntry, fun key value hget => ?_,
    fun stateCf batch hstored hbatch => hstored.writeAll hbatch⟩
  cases hget

end PoSFinalState

end Massa
