import Massa.Lib.SortedMap
import Massa.Models.Time
import Mathlib.Algebra.Order.Ring.Rat
import Mathlib.Data.Prod.Lex

/-!
# The deployment state machine of a MIP (`massa-versioning/src/versioning.rs`)

A MIP (Massa Improvement Proposal) goes through the states of
`ComponentState`: `Defined` until its start time, `Started` while blocks vote
for it, `LockedIn` once the vote ratio reaches the threshold, `Active` after
the activation delay, or `Failed` at the timeout.  A `MipState` is the
current state with a history that keeps only the advances that changed the
kind of state: vote updates while `Started` are not recorded.

Two functions read the history back:
* `is_consistent_with` replays the recorded advances from `Defined` and
  patches a differing `Started` vote with one more advance a millisecond
  later (`isConsistentWith`);
* `state_at` answers the state at a past or future time, re-advancing the
  current state after the last entry with the threshold stored in that entry
  (`stateAt`).

Vote ratios (`Ratio<u64>`) are rationals; times are `MassaTime`
milliseconds.
-/

namespace Massa

/-- `VERSIONING_THRESHOLD_TRANSITION_ACCEPTED`: 75 %. -/
def versioningThresholdTransitionAccepted : ℚ := 75 / 100

/-- `ComponentState`, the states of the `machine!` enum. -/
inductive ComponentState where
  | defined
  | started (voteRatio : ℚ)
  | lockedIn (atTime : MassaTime)
  | active (atTime : MassaTime)
  | failed
  | error
  deriving DecidableEq, Repr

/-- `ComponentStateTypeId`, with the `u32` values of its `repr`. -/
inductive ComponentStateTypeId where
  | error
  | defined
  | started
  | lockedIn
  | active
  | failed
  deriving DecidableEq, Repr

/-- The `u32` of `ComponentStateTypeId` (`IntoPrimitive`). -/
def ComponentStateTypeId.toU32 : ComponentStateTypeId → UInt32
  | .error => 0
  | .defined => 1
  | .started => 2
  | .lockedIn => 3
  | .active => 4
  | .failed => 5

/-- `impl From<&ComponentState> for ComponentStateTypeId`. -/
def ComponentState.typeId : ComponentState → ComponentStateTypeId
  | .defined => .defined
  | .started _ => .started
  | .lockedIn _ => .lockedIn
  | .active _ => .active
  | .failed => .failed
  | .error => .error

/-- `matches!(state, ComponentState::Started(..))`. -/
def ComponentState.isStarted : ComponentState → Bool
  | .started _ => true
  | _ => false

/-- `Advance`, the message that moves a MIP's state. -/
structure Advance where
  startTimestamp : MassaTime
  timeout : MassaTime
  activationDelay : MassaTime
  threshold : ℚ
  now : MassaTime

/-- `Defined::on_advance`. -/
def definedOnAdvance (input : Advance) : ComponentState :=
  if input.now ≥ input.timeout then .failed
  else if input.now ≥ input.startTimestamp then .started 0
  else .defined

/-- `Started::on_advance`. -/
def startedOnAdvance (input : Advance) : ComponentState :=
  if input.now ≥ input.timeout then .failed
  else if input.threshold ≥ versioningThresholdTransitionAccepted then .lockedIn input.now
  else .started input.threshold

/-- `LockedIn::on_advance`. -/
def lockedInOnAdvance (atTime : MassaTime) (input : Advance) : ComponentState :=
  if input.now > atTime.saturatingAdd input.activationDelay then .active input.now
  else .lockedIn atTime

/-- `ComponentState::on_advance`, as the `transitions!` macro dispatches it;
`Active` and `Failed` stay, and `Error` has no transition. -/
def ComponentState.onAdvance : ComponentState → Advance → ComponentState
  | .defined, input => definedOnAdvance input
  | .started _, input => startedOnAdvance input
  | .lockedIn atTime, input => lockedInOnAdvance atTime input
  | .active atTime, _ => .active atTime
  | .failed, _ => .failed
  | .error, _ => .error

/-- `AdvanceLW`, the key of a history entry, ordered by `(now, threshold)`. -/
structure AdvanceLW where
  threshold : ℚ
  now : MassaTime
  deriving DecidableEq, Repr

namespace AdvanceLW

/-- The pair that `impl Ord for AdvanceLW` compares. -/
def cmpKey (a : AdvanceLW) : Lex (ℕ × ℚ) := toLex (a.now.millis.toNat, a.threshold)

theorem cmpKey_injective : Function.Injective cmpKey := by
  rintro ⟨t, ⟨n⟩⟩ ⟨t', ⟨n'⟩⟩ h
  simp only [cmpKey, toLex_inj, Prod.mk.injEq] at h
  rw [UInt64.toNat_inj.mp h.1, h.2]

instance : LinearOrder AdvanceLW := LinearOrder.lift' cmpKey cmpKey_injective

/-- `impl From<&Advance> for AdvanceLW`. -/
def ofAdvance (input : Advance) : AdvanceLW := ⟨input.threshold, input.now⟩

/-- Keys at a later time are greater. -/
theorem lt_of_now_lt {a b : AdvanceLW} (h : a.now < b.now) : a < b :=
  Prod.Lex.toLex_lt_toLex.mpr (.inl h)

end AdvanceLW

/-- `MipComponent`, with the `u32` values of its `repr`. -/
inductive MipComponent where
  | address
  | keyPair
  | block
  | vm
  | finalStateHashKind
  | nonexhaustive
  deriving DecidableEq, Repr

/-- The `u32` of `MipComponent` (`IntoPrimitive`). -/
def MipComponent.toU32 : MipComponent → UInt32
  | .address => 0
  | .keyPair => 1
  | .block => 2
  | .vm => 3
  | .finalStateHashKind => 4
  | .nonexhaustive => 5

/-- `MipInfo`; `components` is the `BTreeMap` as its entries in key order. -/
structure MipInfo where
  name : String
  version : UInt32
  components : List (MipComponent × UInt32)
  start : MassaTime
  timeout : MassaTime
  activationDelay : MassaTime
  deriving DecidableEq, Repr

/-- The advance message built from a MIP's info at `now` with a vote ratio. -/
def MipInfo.advance (m : MipInfo) (threshold : ℚ) (now : MassaTime) : Advance :=
  ⟨m.start, m.timeout, m.activationDelay, threshold, now⟩

/-- `IsConsistentError`. -/
inductive IsConsistentError where
  | emptyHistory
  | atError
  | invalidHistory (stateId : ComponentStateTypeId)
  | nonConsistent (state rebuilt : ComponentState)
  | invalid
  deriving DecidableEq, Repr

/-- `StateAtError`. -/
inductive StateAtError where
  | beforeInitialState (stateId : ComponentStateTypeId) (ts : MassaTime)
  | emptyHistory
  | unpredictable
  deriving DecidableEq, Repr

/-- `MipState`: the current state and the history of state-changing advances. -/
structure MipState where
  state : ComponentState
  history : SortedMap AdvanceLW ComponentStateTypeId
  deriving DecidableEq

namespace MipState

/-- `MipState::new`: `Defined`, with a dummy entry at `defined`. -/
def new (defined : MassaTime) : MipState where
  state := .defined
  history := SortedMap.singleton ⟨0, defined⟩ .defined

/-- `MipState::on_advance`: an advance later than the last entry moves the
state; a change of kind is recorded, a new vote while `Started` is not. -/
def onAdvance (self : MipState) (input : Advance) : MipState :=
  let isForward :=
    (self.history.entries.getLast?.map fun e => decide (e.1.now < input.now)).getD false
  if isForward then
    let state := self.state.onAdvance input
    if state ≠ self.state then
      if !(state.isStarted && self.state.isStarted) then
        { state, history := self.history.insert (AdvanceLW.ofAdvance input) state.typeId }
      else { self with state }
    else self
  else self

/-- The replay loop of `is_consistent_with`: from `MipState::new` at the
first entry's time, advance with the MIP's info and each later entry's time
and threshold.  Returns the rebuilt state and the last message. -/
def replayHistory (mipInfo : MipInfo) (initialNow : MassaTime)
    (entries : List (AdvanceLW × ComponentStateTypeId)) : MipState × Advance :=
  entries.foldl
    (fun acc e =>
      let msg := { acc.2 with now := e.1.now, threshold := e.1.threshold }
      (acc.1.onAdvance msg, msg))
    (new initialNow, mipInfo.advance 0 initialNow)

/-- The patch of `is_consistent_with`: when both states are `Started` with
different votes, advance the rebuilt one with the vote a millisecond later. -/
def patchStarted (self vsh : MipState) (msg : Advance) : MipState :=
  match vsh.state, self.state with
  | .started threshold, .started threshold2 =>
    if threshold2 ≠ threshold then
      -- one millisecond later, or the advance would not be forward
      let now := msg.now.saturatingAdd (MassaTime.fromMillis 1)
      vsh.onAdvance { msg with threshold := threshold2, now := now }
    else vsh
  | _, _ => vsh

/-- `MipState::is_consistent_with`. -/
def isConsistentWith (self : MipState) (mipInfo : MipInfo) : Except IsConsistentError Unit :=
  if self.state = .error then .error .atError
  else if mipInfo.start ≥ mipInfo.timeout then .error .invalid
  else
    match self.history.entries with
    | [] => .error .emptyHistory
    | (initialTs, initialStateId) :: rest =>
      if initialStateId ≠ .defined then .error (.invalidHistory initialStateId)
      else if mipInfo.start < initialTs.now ∨ mipInfo.timeout < initialTs.now then
        .error (.invalidHistory initialStateId)
      else
        let replayed := replayHistory mipInfo initialTs.now rest
        let vsh := patchStarted self replayed.1 replayed.2
        if vsh = self then .ok () else .error (.nonConsistent self.state vsh.state)

/-- The history scan of `state_at` when `ts` is not after the last entry:
the last entry at or before `ts`, and the first one at or after it. -/
def stateAtBounds (ts : MassaTime) :
    List (AdvanceLW × ComponentStateTypeId) → Option (AdvanceLW × ComponentStateTypeId) →
      Option (AdvanceLW × ComponentStateTypeId) × Option (AdvanceLW × ComponentStateTypeId)
  | [], lowerBound => (lowerBound, none)
  | (adv, stateId) :: rest, lowerBound =>
    let lowerBound := if adv.now ≤ ts then some (adv, stateId) else lowerBound
    if adv.now ≥ ts then (lowerBound, some (adv, stateId))
    else stateAtBounds ts rest lowerBound

/-- `MipState::state_at`. -/
def stateAt (self : MipState) (ts start timeout activationDelay : MassaTime) :
    Except StateAtError ComponentStateTypeId :=
  match self.history.entries.head?, self.history.entries.getLast? with
  | some first, some last =>
    if ts < first.1.now then .error (.beforeInitialState first.2 ts)
    else
      let bounds := if ts > last.1.now then (some last, none)
        else stateAtBounds ts self.history.entries none
      match bounds with
      | (some (_, stateId), some _) => .ok stateId
      | (some (adv, stateId), none) =>
        -- after the last entry: re-advance with the threshold stored in it
        if stateId = .started ∧ adv.threshold < versioningThresholdTransitionAccepted ∧ ts < timeout
        then .error .unpredictable
        else .ok (self.state.onAdvance ⟨start, timeout, activationDelay, adv.threshold, ts⟩).typeId
      | _ => .error .emptyHistory
  | _, _ => .error .emptyHistory

/-- `MipState::activation_at`. -/
def activationAt (self : MipState) (mipInfo : MipInfo) : Option MassaTime :=
  match self.state with
  | .lockedIn atTime => some (atTime.saturatingAdd mipInfo.activationDelay)
  | _ => none

/-- The state after a sequence of advances. -/
def advanceAll (self : MipState) (msgs : List Advance) : MipState :=
  msgs.foldl onAdvance self

end MipState

/-! ### Honest histories replay to themselves -/

namespace AdvanceLW

theorem now_le_of_le {a b : AdvanceLW} (h : a ≤ b) : a.now ≤ b.now := by
  rcases Prod.Lex.toLex_le_toLex.mp h with h | h
  · exact h.le
  · exact h.1.le

end AdvanceLW

namespace ComponentState

/-- The state with its `Started` vote forgotten: what replaying a history
rebuilds, since the history does not record vote updates. -/
def forgetVote : ComponentState → ComponentState
  | .started _ => .started 0
  | state => state

/-- No state machine transition reads the `Started` vote. -/
theorem onAdvance_forgetVote (state : ComponentState) (input : Advance) :
    state.forgetVote.onAdvance input = state.onAdvance input := by
  cases state <;> rfl

theorem isStarted_forgetVote (state : ComponentState) :
    state.forgetVote.isStarted = state.isStarted := by
  cases state <;> rfl

theorem isStarted_iff {state : ComponentState} : state.isStarted = true ↔ ∃ v, state = .started v := by
  cases state <;> simp [isStarted]

theorem forgetVote_of_not_started {state : ComponentState} (h : state.isStarted = false) :
    state.forgetVote = state := by
  cases state <;> first | rfl | cases h

/-- Entering `Started` from another state gives a zero vote. -/
theorem eq_zero_of_onAdvance_eq_started {state : ComponentState} {input : Advance} {v : ℚ}
    (hs : state.isStarted = false) (h : state.onAdvance input = .started v) : v = 0 := by
  cases state with
  | defined =>
    simp only [onAdvance, definedOnAdvance] at h
    -- only the middle branch enters `Started`
    split_ifs at h
    cases h
    rfl
  | started => cases hs
  | lockedIn atTime =>
    simp only [onAdvance, lockedInOnAdvance] at h
    split_ifs at h
  | active => cases h
  | failed => cases h
  | error => cases h

/-- A vote kept by `Started::on_advance` is below the threshold and came
before the timeout. -/
theorem startedOnAdvance_eq_started {input : Advance} {v : ℚ}
    (h : startedOnAdvance input = .started v) :
    v = input.threshold ∧ v < versioningThresholdTransitionAccepted ∧ input.now < input.timeout := by
  unfold startedOnAdvance at h
  split_ifs at h with htimeout hthreshold
  cases h
  exact ⟨rfl, lt_of_not_ge hthreshold, lt_of_not_ge htimeout⟩

theorem onAdvance_ne_error {state : ComponentState} (hs : state ≠ .error) (input : Advance) :
    state.onAdvance input ≠ .error := by
  cases state with
  | defined =>
    simp only [onAdvance, definedOnAdvance]
    split_ifs <;> simp
  | started =>
    simp only [onAdvance, startedOnAdvance]
    split_ifs <;> simp
  | lockedIn atTime =>
    simp only [onAdvance, lockedInOnAdvance]
    split_ifs <;> simp
  | active => simp [onAdvance]
  | failed => simp [onAdvance]
  | error => exact absurd rfl hs

end ComponentState

namespace MipState

open ComponentState

/-- The time of the last history entry. -/
def lastNow (self : MipState) : MassaTime :=
  (self.history.entries.getLast?.map fun e => e.1.now).getD ⟨0⟩

theorem now_le_lastNow (self : MipState) {e : AdvanceLW × ComponentStateTypeId}
    (he : e ∈ self.history.entries) : e.1.now ≤ self.lastNow := by
  obtain ⟨x, hx⟩ := Option.ne_none_iff_exists'.mp
    (List.getLast?_eq_none_iff.not.mpr (List.ne_nil_of_mem he))
  rw [lastNow, hx, Option.map_some, Option.getD_some]
  exact AdvanceLW.now_le_of_le (KeysSorted.le_of_getLast? self.history.sorted he hx)

/-- An advance at or before the last entry changes nothing. -/
theorem onAdvance_of_le_lastNow {self : MipState} {input : Advance}
    (hne : self.history.entries ≠ []) (h : input.now ≤ self.lastNow) :
    self.onAdvance input = self := by
  obtain ⟨x, hx⟩ := Option.ne_none_iff_exists'.mp (List.getLast?_eq_none_iff.not.mpr hne)
  rw [lastNow, hx, Option.map_some, Option.getD_some] at h
  simp only [onAdvance, hx, Option.map_some, Option.getD_some, decide_eq_true_eq,
    if_neg (not_lt.mpr h)]

/-- An advance after the last entry is taken. -/
theorem onAdvance_of_lastNow_lt {self : MipState} {input : Advance}
    (hne : self.history.entries ≠ []) (h : self.lastNow < input.now) :
    self.onAdvance input =
      if self.state.onAdvance input ≠ self.state then
        if !((self.state.onAdvance input).isStarted && self.state.isStarted) then
          { state := self.state.onAdvance input,
            history := self.history.insert (AdvanceLW.ofAdvance input)
              (self.state.onAdvance input).typeId }
        else { self with state := self.state.onAdvance input }
      else self := by
  obtain ⟨x, hx⟩ := Option.ne_none_iff_exists'.mp (List.getLast?_eq_none_iff.not.mpr hne)
  rw [lastNow, hx, Option.map_some, Option.getD_some] at h
  simp only [onAdvance, hx, Option.map_some, Option.getD_some, decide_eq_true_eq, if_pos h]

/-- Recording an advance after the last entry appends it. -/
theorem entries_insert_of_lastNow_lt (self : MipState) {input : Advance}
    (h : self.lastNow < input.now) (stateId : ComponentStateTypeId) :
    (self.history.insert (AdvanceLW.ofAdvance input) stateId).entries =
      self.history.entries ++ [(AdvanceLW.ofAdvance input, stateId)] :=
  SortedMap.entries_insert_of_forall_lt _ _ fun _ he =>
    AdvanceLW.lt_of_now_lt (lt_of_le_of_lt (self.now_le_lastNow he) h)

/-- One turn of the replay loop. -/
theorem replayHistory_append_singleton (mipInfo : MipInfo) (initialNow : MassaTime)
    (entries : List (AdvanceLW × ComponentStateTypeId)) (e : AdvanceLW × ComponentStateTypeId) :
    replayHistory mipInfo initialNow (entries ++ [e]) =
      let acc := replayHistory mipInfo initialNow entries
      let msg := { acc.2 with now := e.1.now, threshold := e.1.threshold }
      (acc.1.onAdvance msg, msg) := by
  rw [replayHistory, List.foldl_append]
  rfl

/-- What an honest run keeps: the history starts with the `Defined` entry
at `d`; replaying the other entries rebuilds the history and the state up to
its `Started` vote, ending on a message at the last entry's time; the state
is not `Error`; a `Started` vote is below the threshold, and one that is not
zero was taken before the timeout, a millisecond or more after the last
entry. -/
structure Honest (m : MipInfo) (d : MassaTime) (s : MipState) : Prop where
  head : s.history.entries.head? = some (⟨0, d⟩, .defined)
  replay : ∃ thr, replayHistory m d s.history.entries.tail =
    (⟨s.state.forgetVote, s.history⟩, m.advance thr s.lastNow)
  ne_error : s.state ≠ .error
  started : ∀ v, s.state = .started v → v < versioningThresholdTransitionAccepted ∧
    (v ≠ 0 → s.lastNow.millis.toNat + 1 < m.timeout.millis.toNat)

theorem Honest.new (m : MipInfo) (d : MassaTime) : Honest m d (new d) where
  head := rfl
  replay := ⟨0, rfl⟩
  ne_error := by simp [MipState.new]
  started := by simp [MipState.new]

theorem Honest.entries_ne_nil {m : MipInfo} {d : MassaTime} {s : MipState} (h : Honest m d s) :
    s.history.entries ≠ [] := by
  intro hnil
  have := h.head
  rw [hnil] at this
  cases this

/-- A new vote while `Started` changes only the state, and keeps a run
honest: the vote is under the acceptance threshold, and it was cast before
the timeout. -/
theorem Honest.newVote {m : MipInfo} {d : MassaTime} {s : MipState} (h : Honest m d s)
    (thr : ℚ) {now : MassaTime} (hfwd : s.lastNow < now)
    (hst : (s.state.onAdvance (m.advance thr now)).isStarted = true)
    (hss : s.state.isStarted = true) :
    Honest m d { s with state := s.state.onAdvance (m.advance thr now) } := by
  obtain ⟨thr0, hreplay⟩ := h.replay
  obtain ⟨w, hw⟩ := isStarted_iff.mp hss
  obtain ⟨v', hv'⟩ := isStarted_iff.mp hst
  refine ⟨h.head, ⟨thr0, hreplay.trans (by rw [hv', hw]; rfl)⟩, ?_, ?_⟩
  · show s.state.onAdvance (m.advance thr now) ≠ .error
    simp [hv']
  · intro v hv
    have hson : startedOnAdvance (m.advance thr now) = .started v := by
      rw [← hv]
      show startedOnAdvance (m.advance thr now) = s.state.onAdvance (m.advance thr now)
      rw [hw]
      rfl
    obtain ⟨-, hlt, htimeout⟩ := startedOnAdvance_eq_started hson
    refine ⟨hlt, fun _ => ?_⟩
    have hnow : s.lastNow.millis.toNat < now.millis.toNat := hfwd
    have htime : now.millis.toNat < m.timeout.millis.toNat := htimeout
    show s.lastNow.millis.toNat + 1 < m.timeout.millis.toNat
    omega

/-- A change of kind is recorded in the history, and keeps a run honest: the
replay of the history records it too, since the advance does not read the
vote. -/
theorem Honest.recordChange {m : MipInfo} {d : MassaTime} {s : MipState} (h : Honest m d s)
    (thr : ℚ) {now : MassaTime} (hfwd : s.lastNow < now)
    (hchange : s.state.onAdvance (m.advance thr now) ≠ s.state)
    (hnb : ((s.state.onAdvance (m.advance thr now)).isStarted && s.state.isStarted) = false) :
    Honest m d ⟨s.state.onAdvance (m.advance thr now),
      s.history.insert (AdvanceLW.ofAdvance (m.advance thr now))
        (s.state.onAdvance (m.advance thr now)).typeId⟩ := by
  have hne := h.entries_ne_nil
  obtain ⟨thr0, hreplay⟩ := h.replay
  have hfwd' : s.lastNow < (m.advance thr now).now := hfwd
  set st := s.state.onAdvance (m.advance thr now) with hst
  set key := AdvanceLW.ofAdvance (m.advance thr now) with hkey
  set next : MipState := ⟨st, s.history.insert key st.typeId⟩ with hnext
  have hentries : next.history.entries = s.history.entries ++ [(key, st.typeId)] :=
    s.entries_insert_of_lastNow_lt hfwd' st.typeId
  have hzero : ∀ v, st = .started v → v = 0 := by
    intro v hv
    have hss : s.state.isStarted = false := by
      have hst' : st.isStarted = true := by rw [hv]; rfl
      simpa [hst'] using hnb
    exact eq_zero_of_onAdvance_eq_started hss (hst.symm.trans hv)
  have hforget : st.forgetVote = st := by
    cases hst' : st.isStarted
    · exact forgetVote_of_not_started hst'
    · obtain ⟨v, hv⟩ := isStarted_iff.mp hst'
      rw [hv, hzero v hv]
      rfl
  have hlast : next.lastNow = now := by
    rw [lastNow, hentries, List.getLast?_append_of_ne_nil _ (List.cons_ne_nil _ _)]
    rfl
  -- the rebuilt state is `st` too: the advance does not read the vote
  have hdiff : st ≠ s.state.forgetVote := by
    intro heq
    apply hchange
    cases hs' : s.state.isStarted
    · rw [heq, forgetVote_of_not_started hs']
    · have hst' : st.isStarted = false := by simpa [hs'] using hnb
      rw [heq, isStarted_forgetVote, hs'] at hst'
      cases hst'
  have hreplayed : (⟨s.state.forgetVote, s.history⟩ : MipState).onAdvance (m.advance thr now) =
      next := by
    rw [onAdvance_of_lastNow_lt
      (show (⟨s.state.forgetVote, s.history⟩ : MipState).history.entries ≠ [] from hne) hfwd']
    simp only [onAdvance_forgetVote, isStarted_forgetVote, ← hst]
    rw [if_pos hdiff, if_pos (by rw [hnb]; rfl)]
  refine ⟨?_, ⟨thr, ?_⟩, ?_, ?_⟩
  · rw [hentries, List.head?_append_of_ne_nil _ hne]
    exact h.head
  · rw [hlast, hentries, List.tail_append_of_ne_nil hne, replayHistory_append_singleton,
      hreplay]
    show (_, _) = (MipState.mk next.state.forgetVote next.history, _)
    rw [show next.state = st from rfl, hforget]
    exact Prod.ext hreplayed rfl
  · exact onAdvance_ne_error h.ne_error _
  · intro v hv
    rw [hzero v hv]
    have hpos : (0 : ℚ) < versioningThresholdTransitionAccepted := by
      unfold versioningThresholdTransitionAccepted
      decide +kernel
    exact ⟨hpos, fun h0 => absurd rfl h0⟩

/-- **Step lemma.**  An advance built from the MIP's info keeps a run honest. -/
theorem Honest.onAdvance {m : MipInfo} {d : MassaTime} {s : MipState} (h : Honest m d s)
    (thr : ℚ) (now : MassaTime) : Honest m d (s.onAdvance (m.advance thr now)) := by
  have hne := h.entries_ne_nil
  -- an advance that is not later than the last entry is ignored
  by_cases hfwd : s.lastNow < now
  swap
  · rw [onAdvance_of_le_lastNow hne (not_lt.mp hfwd)]
    exact h
  rw [onAdvance_of_lastNow_lt hne hfwd]
  by_cases hchange : s.state.onAdvance (m.advance thr now) ≠ s.state
  swap
  · rw [if_neg hchange]
    exact h
  rw [if_pos hchange]
  -- a vote within `Started` changes the state only; any other change is recorded
  by_cases hboth : (s.state.onAdvance (m.advance thr now)).isStarted && s.state.isStarted
  · rw [if_neg (by simp [hboth])]
    obtain ⟨hst, hss⟩ := Bool.and_eq_true_iff.mp hboth
    exact h.newVote thr hfwd hst hss
  · have hnb := Bool.eq_false_iff.mpr hboth
    rw [if_pos (by rw [hnb]; rfl)]
    exact h.recordChange thr hfwd hchange hnb

/-- **Run lemma.**  Any sequence of advances built from the MIP's info keeps
a run from `MipState::new` honest. -/
theorem Honest.advanceAll {m : MipInfo} {d : MassaTime} {s : MipState} (h : Honest m d s)
    (votes : List (ℚ × MassaTime)) :
    Honest m d (s.advanceAll (votes.map fun v => m.advance v.1 v.2)) := by
  induction votes generalizing s with
  | nil => exact h
  | cons v rest ih => exact ih (h.onAdvance v.1 v.2)

theorem patchStarted_of_not_started (self vsh : MipState) (msg : Advance)
    (h : self.state.isStarted = false) : patchStarted self vsh msg = vsh := by
  unfold patchStarted
  split
  · next hself => rw [hself] at h; cases h
  · rfl

theorem patchStarted_started {self vsh : MipState} {a b : ℚ} (msg : Advance)
    (hvsh : vsh.state = .started a) (hself : self.state = .started b) :
    patchStarted self vsh msg =
      let now := msg.now.saturatingAdd (MassaTime.fromMillis 1)
      if b ≠ a then vsh.onAdvance { msg with threshold := b, now := now } else vsh := by
  simp only [patchStarted, hvsh, hself]

/-- On an honest state, the patch of `is_consistent_with` rebuilds the state
from the replayed one. -/
theorem Honest.patchStarted_eq {m : MipInfo} {d : MassaTime} {s : MipState} (h : Honest m d s)
    (thr0 : ℚ) : patchStarted s ⟨s.state.forgetVote, s.history⟩ (m.advance thr0 s.lastNow) = s := by
  cases hs : s.state.isStarted
  · rw [patchStarted_of_not_started _ _ _ hs, forgetVote_of_not_started hs]
  obtain ⟨v, hv⟩ := isStarted_iff.mp hs
  obtain ⟨hvlt, hafter⟩ := h.started v hv
  have hvsh : (⟨s.state.forgetVote, s.history⟩ : MipState).state = .started 0 := by
    rw [hv]
    rfl
  rw [patchStarted_started _ hvsh hv]
  by_cases hv0 : v = 0
  · -- the replay already has a zero vote
    have hkeep : s.state.forgetVote = s.state := by
      rw [hv, hv0]
      rfl
    rw [if_neg (not_not.mpr hv0), hkeep]
  -- the extra advance, a millisecond after the last entry and before the timeout
  have htime := hafter hv0
  set later := s.lastNow.saturatingAdd (MassaTime.fromMillis 1) with hlater
  have hsat : later.millis.toNat = s.lastNow.millis.toNat + 1 :=
    MassaTime.toNat_saturatingAdd (by
      have := m.timeout.millis.toNat_lt
      simp only [MassaTime.fromMillis, UInt64.toNat_one]
      omega)
  set vsh : MipState := ⟨s.state.forgetVote, s.history⟩ with hvsh_def
  set msg : Advance := { m.advance thr0 s.lastNow with threshold := v, now := later } with hmsg
  have hlt : vsh.lastNow < msg.now := by
    show s.lastNow.millis.toNat < later.millis.toNat
    omega
  have hbefore : msg.now < msg.timeout := by
    show later.millis.toNat < m.timeout.millis.toNat
    omega
  have hadv : ComponentState.onAdvance (.started 0) msg = .started v := by
    simp only [ComponentState.onAdvance, startedOnAdvance]
    rw [if_neg (not_le.mpr hbefore), if_neg (not_le.mpr hvlt)]
  show (if v ≠ 0 then vsh.onAdvance msg else vsh) = s
  rw [if_pos hv0, onAdvance_of_lastNow_lt (show vsh.history.entries ≠ [] from h.entries_ne_nil) hlt,
    hvsh, hadv, if_pos (by simpa using hv0)]
  -- a vote update while `Started` keeps the history
  simp only [isStarted, Bool.and_self, Bool.not_true, Bool.false_eq_true, if_false]
  rw [← hv]

/-- An honest state is consistent with its MIP's info. -/
theorem Honest.isConsistentWith {m : MipInfo} {d : MassaTime} {s : MipState} (h : Honest m d s)
    (hm : m.start < m.timeout) (hd : d ≤ m.start) : s.isConsistentWith m = .ok () := by
  obtain ⟨thr0, hreplay⟩ := h.replay
  have hhead := h.head
  obtain ⟨first, rest, hentries⟩ := List.exists_cons_of_ne_nil h.entries_ne_nil
  rw [hentries] at hhead hreplay
  cases hhead
  have hinitial : ¬(m.start < d ∨ m.timeout < d) := by
    rintro (hlt | hlt)
    · exact absurd hd (not_le.mpr hlt)
    · exact absurd (hd.trans hm.le) (not_le.mpr hlt)
  unfold MipState.isConsistentWith
  rw [if_neg h.ne_error, if_neg (not_le.mpr hm)]
  simp only [hentries, ne_eq, not_true_eq_false, if_false, if_neg hinitial]
  rw [List.tail_cons] at hreplay
  rw [hreplay]
  simp only [h.patchStarted_eq thr0, if_true]

/-- A state built from `MipState::new` by advances from the MIP's info passes
`is_consistent_with`, whatever the votes and their times. -/
theorem isConsistentWith_advanceAll (m : MipInfo) (hm : m.start < m.timeout) (d : MassaTime)
    (hd : d ≤ m.start) (votes : List (ℚ × MassaTime)) :
    ((new d).advanceAll (votes.map fun v => m.advance v.1 v.2)).isConsistentWith m = .ok () :=
  ((Honest.new m d).advanceAll votes).isConsistentWith hm hd

theorem isConsistentWith_advanceAll_lock_in :
    ((new ⟨0⟩).advanceAll ([(0, ⟨10⟩), (1 / 2, ⟨20⟩), (9 / 10, ⟨30⟩), (0, ⟨40⟩)].map fun v =>
      (⟨"mip", 1, [], ⟨10⟩, ⟨100⟩, ⟨5⟩⟩ : MipInfo).advance v.1 v.2)).isConsistentWith
        ⟨"mip", 1, [], ⟨10⟩, ⟨100⟩, ⟨5⟩⟩ = .ok () :=
  isConsistentWith_advanceAll ⟨"mip", 1, [], ⟨10⟩, ⟨100⟩, ⟨5⟩⟩ (by decide) ⟨0⟩ (by decide) _

/-- After the last history entry, `state_at` advances the current state with
the threshold stored in that entry, not with the current vote. -/
theorem stateAt_of_lastNow_lt {self : MipState} {ts start timeout activationDelay : MassaTime}
    {last : AdvanceLW × ComponentStateTypeId} (hlast : self.history.entries.getLast? = some last)
    (hts : last.1.now < ts)
    (hpred : ¬(last.2 = .started ∧ last.1.threshold < versioningThresholdTransitionAccepted ∧
      ts < timeout)) :
    self.stateAt ts start timeout activationDelay =
      .ok (self.state.onAdvance ⟨start, timeout, activationDelay, last.1.threshold, ts⟩).typeId := by
  obtain ⟨first, hfirst⟩ : ∃ first, self.history.entries.head? = some first := by
    cases hentries : self.history.entries with
    | nil => rw [hentries] at hlast; cases hlast
    | cons e _ => exact ⟨e, rfl⟩
  have hle : first.1 ≤ last.1 := by
    have hmem : first ∈ self.history.entries := List.mem_of_head? hfirst
    exact KeysSorted.le_of_getLast? self.history.sorted hmem hlast
  have hafter : ¬ts < first.1.now := not_lt.mpr (AdvanceLW.now_le_of_le hle |>.trans hts.le)
  simp only [stateAt, hfirst, hlast, if_neg hafter, gt_iff_lt, if_pos hts]
  rw [if_neg hpred]

/-- The stale threshold makes `state_at` answer `LockedIn` for a MIP that is
`Started`: entering `Started` at 10 with a vote of 90 % records that vote, a
later vote of 50 % is not recorded, and at 15 `state_at` locks in while the
state after the advances up to 15 is `Started(0)`; `activation_at` is then
`None`. -/
theorem stateAt_lockedIn_while_started :
    let m : MipInfo := ⟨"mip", 1, [], ⟨10⟩, ⟨100⟩, ⟨5⟩⟩
    let before := (new ⟨0⟩).onAdvance (m.advance (9 / 10) ⟨10⟩)
    let s := before.onAdvance (m.advance (1 / 2) ⟨20⟩)
    s.stateAt ⟨15⟩ m.start m.timeout m.activationDelay = .ok .lockedIn ∧
      before.state = .started 0 ∧ s.state = .started (1 / 2) ∧ s.activationAt m = none := by
  intro m before s
  -- the advance at 20 keeps `Started` and records nothing, so the last entry
  -- is still the one of 10 with its vote of 90 %
  have hlast : s.history.entries.getLast? = some (⟨9 / 10, ⟨10⟩⟩, .started) := by decide +kernel
  refine ⟨?_, by decide +kernel, by decide +kernel, by decide +kernel⟩
  rw [stateAt_of_lastNow_lt hlast (by decide) (by decide +kernel)]
  decide +kernel

end MipState

end Massa
