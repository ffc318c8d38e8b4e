import Massa.Versioning.Mip
import Massa.Lib.Lists
import Mathlib.Data.String.Basic
import Mathlib.Logic.Relation

/-!
# The MIP store and its merge

`MipStoreRaw` keeps a `MipState` for every `MipInfo`, in the order of
`impl Ord for MipInfo`.  `MipStoreRaw::update_with` merges a store received
at bootstrap: each received entry must pass `is_consistent_with`; a MIP the
local store knows is replaced when it is still `Defined`, `Started` or
`LockedIn` and the received state has a `ComponentStateTypeId` that is not
lower; a MIP it does not know is collected in `to_add`.

The state machine moves along the transitions `Defined → Started`,
`Defined → Failed`, `Started → LockedIn`, `Started → Failed` and
`LockedIn → Active` (`Transition`, with its reflexive-transitive closure
`Reaches`, decided by `canReach`).  Every `on_advance` moves along it, so an
id never goes down along advances (`MipState.typeId_advanceAll`), and the
merge never lowers an id nor touches `Active` or `Failed`
(`updateWith_spec`).  But ids are not the transition order: `Failed` (5) is
above `LockedIn` (3) and not reachable from it, and the merge accepts exactly
that one step against the machine (`updateWith_spec`,
`updateWith_replaces_lockedIn_by_failed`).
-/

namespace Massa

namespace MipComponent

theorem toU32_injective : Function.Injective toU32 := by
  intro a b
  cases a <;> cases b <;> decide

/-- The derived `Ord`: the order of declaration. -/
instance : LinearOrder MipComponent :=
  LinearOrder.lift' (fun c => c.toU32.toNat) fun _ _ h => toU32_injective (UInt32.toNat_inj.mp h)

end MipComponent

namespace MipInfo

/-- The tuple that `impl Ord for MipInfo` compares: the time range first,
then the name, the version and the components. -/
def cmpKey (m : MipInfo) : ℕ ×ₗ ℕ ×ₗ ℕ ×ₗ String ×ₗ ℕ ×ₗ List (MipComponent ×ₗ ℕ) :=
  toLex (m.start.millis.toNat, toLex (m.timeout.millis.toNat, toLex (m.activationDelay.millis.toNat,
    toLex (m.name, toLex (m.version.toNat, m.components.map fun c => toLex (c.1, c.2.toNat))))))

theorem cmpKey_injective : Function.Injective cmpKey := by
  rintro ⟨n, v, c, s, t, a⟩ ⟨n', v', c', s', t', a'⟩ h
  simp only [cmpKey, toLex_inj, Prod.mk.injEq] at h
  obtain ⟨hs, ht, ha, rfl, hv, hc⟩ := h
  have hcomp : c = c' := by
    refine (List.map_injective_iff.mpr ?_) hc
    rintro ⟨x, y⟩ ⟨x', y'⟩ hxy
    simp only [toLex_inj, Prod.mk.injEq] at hxy
    rw [hxy.1, UInt32.toNat_inj.mp hxy.2]
  rw [UInt32.toNat_inj.mp hv, hcomp, MassaTime.millis_toNat_injective hs,
    MassaTime.millis_toNat_injective ht, MassaTime.millis_toNat_injective ha]

instance : LinearOrder MipInfo := LinearOrder.lift' cmpKey cmpKey_injective

end MipInfo

namespace ComponentStateTypeId

/-- The transitions of the `machine!` state machine, by kind of state. -/
inductive Transition : ComponentStateTypeId → ComponentStateTypeId → Prop
  | definedStarted : Transition .defined .started
  | definedFailed : Transition .defined .failed
  | startedLockedIn : Transition .started .lockedIn
  | startedFailed : Transition .started .failed
  | lockedInActive : Transition .lockedIn .active

/-- A kind reachable from another by transitions. -/
def Reaches : ComponentStateTypeId → ComponentStateTypeId → Prop :=
  Relation.ReflTransGen Transition

/-- `Reaches` as a table. -/
def canReach : ComponentStateTypeId → ComponentStateTypeId → Bool
  | .defined, .defined | .defined, .started | .defined, .lockedIn | .defined, .active
  | .defined, .failed => true
  | .started, .started | .started, .lockedIn | .started, .active | .started, .failed => true
  | .lockedIn, .lockedIn | .lockedIn, .active => true
  | .active, .active | .failed, .failed | .error, .error => true
  | _, _ => false

theorem canReach_of_transition {a b c : ComponentStateTypeId} (hab : canReach a b = true)
    (hbc : Transition b c) : canReach a c = true := by
  cases hbc <;> cases a <;> first | rfl | cases hab

theorem reaches_of_canReach {a b : ComponentStateTypeId} (h : canReach a b = true) :
    Reaches a b := by
  have hds : Reaches .defined .started := .single .definedStarted
  have hsl : Reaches .started .lockedIn := .single .startedLockedIn
  have hla : Reaches .lockedIn .active := .single .lockedInActive
  cases a <;> cases b <;> first
    | exact .refl
    | exact .single .definedFailed
    | exact .single .startedFailed
    | exact hds | exact hsl | exact hla
    | exact hds.trans hsl | exact hsl.trans hla | exact (hds.trans hsl).trans hla
    | cases h

theorem reaches_iff_canReach {a b : ComponentStateTypeId} : Reaches a b ↔ canReach a b = true := by
  constructor
  · intro h
    induction h with
    | refl => cases a <;> rfl
    | tail _ hstep ih => exact canReach_of_transition ih hstep
  · exact reaches_of_canReach

instance : DecidableRel Reaches := fun _ _ => decidable_of_iff _ reaches_iff_canReach.symm

theorem not_reaches_lockedIn_failed : ¬Reaches .lockedIn .failed := by
  rw [reaches_iff_canReach]
  decide

/-- Reaching only goes up in the `u32` ids. -/
theorem Reaches.toU32_le {a b : ComponentStateTypeId} (h : Reaches a b) : a.toU32 ≤ b.toU32 := by
  rw [reaches_iff_canReach] at h
  cases a <;> cases b <;> first | decide | cases h

/-- Going up in the `u32` ids from `Defined`, `Started` or `LockedIn` to a
state that is not `Error` reaches it, except from `LockedIn` to `Failed`. -/
theorem reaches_of_toU32_le {a b : ComponentStateTypeId} (ha : a ≠ .error ∧ a ≠ .active ∧ a ≠ .failed)
    (hb : b ≠ .error) (hle : a.toU32 ≤ b.toU32) (hlf : ¬(a = .lockedIn ∧ b = .failed)) :
    Reaches a b := by
  rw [reaches_iff_canReach]
  revert ha hb hle hlf
  cases a <;> cases b <;> decide

end ComponentStateTypeId

open ComponentStateTypeId

/-- Every `on_advance` of the state machine stays or takes a transition. -/
theorem ComponentState.reaches_onAdvance (state : ComponentState) (input : Advance) :
    Reaches state.typeId (state.onAdvance input).typeId := by
  cases state with
  | defined =>
    simp only [onAdvance, definedOnAdvance]
    split_ifs
    · exact .single .definedFailed
    · exact .single .definedStarted
    · exact .refl
  | started =>
    simp only [onAdvance, startedOnAdvance]
    split_ifs
    · exact .single .startedFailed
    · exact .single .startedLockedIn
    · exact .refl
  | lockedIn atTime =>
    simp only [onAdvance, lockedInOnAdvance]
    split_ifs
    · exact .single .lockedInActive
    · exact .refl
  | active => exact .refl
  | failed => exact .refl
  | error => exact .refl

/-- **Step lemma.**  `MipState::on_advance` moves the state along the machine. -/
theorem MipState.reaches_onAdvance (s : MipState) (input : Advance) :
    Reaches s.state.typeId (s.onAdvance input).state.typeId := by
  by_cases hne : s.history.entries = []
  · -- no history: no advance is forward
    have hself : s.onAdvance input = s := by
      simp only [onAdvance, hne, List.getLast?_nil, Option.map_none, Option.getD_none,
        Bool.false_eq_true, if_false]
    rw [hself]
    exact .refl
  by_cases hfwd : s.lastNow < input.now
  · rw [onAdvance_of_lastNow_lt hne hfwd]
    split_ifs
    · exact ComponentState.reaches_onAdvance _ _
    · exact ComponentState.reaches_onAdvance _ _
    · exact .refl
  · rw [onAdvance_of_le_lastNow hne (not_lt.mp hfwd)]
    exact .refl

/-- **Run lemma.**  Along any sequence of advances the state only moves
forward in the machine. -/
theorem MipState.reaches_advanceAll (s : MipState) (msgs : List Advance) :
    Reaches s.state.typeId (s.advanceAll msgs).state.typeId := by
  induction msgs generalizing s with
  | nil => exact .refl
  | cons input rest ih =>
    exact (s.reaches_onAdvance input).trans (ih (s.onAdvance input))

/-- **Advances only move forward.**  Along any sequence of advances a MIP's
state moves along the transitions of the machine, so its `u32` id, which
`update_with` compares, never goes down. -/
theorem MipState.typeId_advanceAll (s : MipState) (msgs : List Advance) :
    Reaches s.state.typeId (s.advanceAll msgs).state.typeId ∧
      s.state.typeId.toU32 ≤ (s.advanceAll msgs).state.typeId.toU32 := by
  have hreach := s.reaches_advanceAll msgs
  exact ⟨hreach, hreach.toU32_le⟩

/-- A state that passes `is_consistent_with` is not `Error`. -/
theorem MipState.state_ne_error_of_isConsistentWith {s : MipState} {m : MipInfo}
    (h : s.isConsistentWith m = .ok ()) : s.state ≠ .error := by
  intro herr
  rw [isConsistentWith, if_pos herr] at h
  cases h

/-- `matches!(state, Defined | Started | LockedIn)`: the states `update_with`
may replace. -/
def ComponentState.isUpdatable : ComponentState → Bool
  | .defined | .started _ | .lockedIn _ => true
  | _ => false

theorem ComponentState.isUpdatable_iff {state : ComponentState} :
    state.isUpdatable = true ↔
      state.typeId ≠ .error ∧ state.typeId ≠ .active ∧ state.typeId ≠ .failed := by
  cases state <;> simp [isUpdatable, typeId]

/-- `MipStoreRaw`; its `stats` are not read by `update_with`. -/
structure MipStoreRaw where
  store : SortedMap MipInfo MipState

/-- `UpdateWithError`. -/
inductive UpdateWithError where
  | nonConsistent (mipInfo : MipInfo) (state : MipState) (e : IsConsistentError)
  | downgrade (mipInfo : MipInfo) (orig received : ComponentState)
  | overlapping (mipInfo last : MipInfo)
  | invalidActivationDelay (mipInfo : MipInfo) (delay min : MassaTime)

/-- `VERSIONING_ACTIVATION_DELAY_MIN`: `T0 * PERIODS_PER_CYCLE`. -/
def versioningActivationDelayMin : MassaTime := ⟨16000 * 128⟩

/-- The locals of `update_with`'s loop. -/
structure UpdateWithAcc where
  componentVersions : SortedMap MipComponent UInt32
  names : List String
  toUpdate : SortedMap MipInfo MipState
  toAdd : SortedMap MipInfo MipState

namespace MipStoreRaw

/-- The locals before the loop: the component versions and the names of the
local store, and nothing to update or add. -/
def updateWithInit (self : MipStoreRaw) : UpdateWithAcc where
  componentVersions := self.store.entries.foldl
    (fun acc e => e.1.components.foldl (fun acc c => acc.insert c.1 c.2) acc) ∅
  names := self.store.entries.map fun e => e.1.name
  toUpdate := ∅
  toAdd := ∅

/-- One turn of `update_with`'s loop, on a received entry. -/
def updateWithStep (self : MipStoreRaw) (acc : UpdateWithAcc) (mInfo : MipInfo)
    (mState : MipState) : Except UpdateWithError UpdateWithAcc :=
  match mState.isConsistentWith mInfo with
  | .error e => .error (.nonConsistent mInfo mState e)
  | .ok () =>
    match self.store.get? mInfo with
    | some mStateOrig =>
      -- `Active`, `Failed` and `Error` are not replaced
      if mStateOrig.state.isUpdatable then
        if mState.state.typeId.toU32 ≥ mStateOrig.state.typeId.toU32 then
          .ok { acc with toUpdate := acc.toUpdate.insert mInfo mState }
        else .error (.downgrade mInfo mStateOrig.state mState.state)
      else .ok acc
    | none =>
      match (acc.toAdd.entries.getLast?.map Prod.fst).or
          (self.store.entries.getLast?.map Prod.fst) with
      | some lastMInfo =>
        let componentVersionCompatible := mInfo.components.all fun c =>
          !(c.2 ≤ (acc.componentVersions.get? c.1).getD 0)
        if mInfo.activationDelay < versioningActivationDelayMin then
          .error (.invalidActivationDelay mInfo mInfo.activationDelay versioningActivationDelayMin)
        else if mInfo.start > lastMInfo.timeout ∧ mInfo.timeout > mInfo.start ∧
            mInfo.version > lastMInfo.version ∧ mInfo.name ∉ acc.names ∧
            componentVersionCompatible = true then
          .ok ⟨mInfo.components.foldl (fun cv c => cv.insert c.1 c.2) acc.componentVersions,
            mInfo.name :: acc.names, acc.toUpdate, acc.toAdd.insert mInfo mState⟩
        else .error (.overlapping mInfo lastMInfo)
      | none =>
        .ok ⟨acc.componentVersions, mInfo.name :: acc.names, acc.toUpdate,
          acc.toAdd.insert mInfo mState⟩

/-- `MipStoreRaw::update_with`: the updated infos and the infos to add, with
the store after the merge; on an error the store is left as it was. -/
def updateWith (self storeRaw : MipStoreRaw) :
    Except UpdateWithError (List MipInfo × SortedMap MipInfo MipState) × MipStoreRaw :=
  match storeRaw.store.entries.foldlM (fun acc e => updateWithStep self acc e.1 e.2)
      self.updateWithInit with
  | .ok acc => (.ok (acc.toUpdate.entries.map Prod.fst, acc.toAdd), ⟨self.store.extend acc.toUpdate⟩)
  | .error e => (.error e, self)

/-- What `to_update` holds after any number of turns: only MIPs of the local
store that may be replaced, each with a consistent received state whose id
is not lower. -/
def UpdateSound (self : MipStoreRaw) (toUpdate : SortedMap MipInfo MipState) : Prop :=
  ∀ k v, toUpdate.get? k = some v → ∃ orig, self.store.get? k = some orig ∧
    orig.state.isUpdatable = true ∧ orig.state.typeId.toU32 ≤ v.state.typeId.toU32 ∧
    v.isConsistentWith k = .ok ()

/-- A turn either keeps `to_update` or records a received state that may
replace the local one. -/
theorem toUpdate_updateWithStep {self : MipStoreRaw} {acc acc' : UpdateWithAcc} {mInfo : MipInfo}
    {mState : MipState} (h : self.updateWithStep acc mInfo mState = .ok acc') :
    acc'.toUpdate = acc.toUpdate ∨
      (∃ orig, self.store.get? mInfo = some orig ∧ orig.state.isUpdatable = true ∧
        orig.state.typeId.toU32 ≤ mState.state.typeId.toU32 ∧
        mState.isConsistentWith mInfo = .ok ()) ∧
      acc'.toUpdate = acc.toUpdate.insert mInfo mState := by
  unfold updateWithStep at h
  split at h
  · cases h
  next hcons =>
  split at h
  · next orig horig =>
    split_ifs at h with hupd hge
    · -- a replaceable MIP with a state that is not lower
      cases h
      exact .inr ⟨⟨orig, horig, hupd, hge, hcons⟩, rfl⟩
    · -- an `Active`, `Failed` or `Error` MIP is skipped
      cases h
      exact .inl rfl
  · -- a MIP the local store does not know goes to `to_add`
    split at h
    · split at h
      · cases h
      · dsimp only at h
        split at h
        · cases h
          exact .inl rfl
        · cases h
    · cases h
      exact .inl rfl

theorem UpdateSound.updateWithStep {self : MipStoreRaw} {acc acc' : UpdateWithAcc}
    {mInfo : MipInfo} {mState : MipState} (hsound : self.UpdateSound acc.toUpdate)
    (h : self.updateWithStep acc mInfo mState = .ok acc') : self.UpdateSound acc'.toUpdate := by
  rcases toUpdate_updateWithStep h with heq | ⟨hnew, heq⟩
  · rw [heq]
    exact hsound
  intro k v hk
  rw [heq, SortedMap.get?_insert] at hk
  split_ifs at hk with hkm
  · cases hk
    rw [hkm]
    exact hnew
  · exact hsound k v hk

/-- **Run lemma.**  A merge that succeeds only holds sound updates. -/
theorem updateSound_of_foldlM {self : MipStoreRaw} {entries : List (MipInfo × MipState)}
    {acc : UpdateWithAcc}
    (h : entries.foldlM (fun acc e => self.updateWithStep acc e.1 e.2) self.updateWithInit =
      .ok acc) : self.UpdateSound acc.toUpdate :=
  List.foldlM_invariant (fun acc => self.UpdateSound acc.toUpdate)
    (fun _ _ _ hsound hstep => hsound.updateWithStep hstep) (fun _ _ hk => by cases hk) h

/-- After a merge that succeeds, a MIP keeps its state or has a consistent
received state that replaces a `Defined`, `Started` or `LockedIn` state
with an id that is not lower. -/
theorem get?_updateWith {self storeRaw : MipStoreRaw} {r : List MipInfo × SortedMap MipInfo MipState}
    (h : (self.updateWith storeRaw).1 = .ok r) (k : MipInfo) :
    (self.updateWith storeRaw).2.store.get? k = self.store.get? k ∨
      ∃ orig v, self.store.get? k = some orig ∧ orig.state.isUpdatable = true ∧
        orig.state.typeId.toU32 ≤ v.state.typeId.toU32 ∧ v.isConsistentWith k = .ok () ∧
        (self.updateWith storeRaw).2.store.get? k = some v := by
  unfold updateWith at h ⊢
  split
  · next acc hfold =>
    have hsound := updateSound_of_foldlM hfold
    show (self.store.extend acc.toUpdate).get? k = _ ∨ ∃ orig v, _ ∧ _ ∧ _ ∧ _ ∧
      (self.store.extend acc.toUpdate).get? k = some v
    rw [SortedMap.get?_extend]
    cases hk : acc.toUpdate.get? k with
    | none =>
      left
      cases self.store.get? k <;> rfl
    | some v =>
      obtain ⟨orig, horig, hupd, hle, hcons⟩ := hsound k v hk
      right
      rw [horig]
      exact ⟨orig, v, rfl, hupd, hle, hcons, rfl⟩
  · next e hfold =>
    rw [hfold] at h
    cases h

/-- A failed merge leaves the store as it was. -/
theorem updateWith_of_error {self storeRaw : MipStoreRaw} {e : UpdateWithError}
    (h : (self.updateWith storeRaw).1 = .error e) : (self.updateWith storeRaw).2 = self := by
  unfold updateWith at h ⊢
  split
  · next acc hfold =>
    rw [hfold] at h
    cases h
  · rfl

/-- `Active`, `Failed` and `Error` MIPs are never changed by a merge. -/
theorem get?_updateWith_of_not_updatable {self storeRaw : MipStoreRaw}
    {r : List MipInfo × SortedMap MipInfo MipState} (h : (self.updateWith storeRaw).1 = .ok r)
    {k : MipInfo} {orig : MipState} (horig : self.store.get? k = some orig)
    (hfinal : orig.state.isUpdatable = false) :
    (self.updateWith storeRaw).2.store.get? k = some orig := by
  rcases get?_updateWith h k with hkeep | ⟨orig', v, horig', hupd, -⟩
  · rw [hkeep, horig]
  · rw [horig, Option.some.injEq] at horig'
    rw [← horig', hfinal] at hupd
    cases hupd

/-- A merge never lowers the id of a MIP's state. -/
theorem typeId_le_of_updateWith {self storeRaw : MipStoreRaw}
    {r : List MipInfo × SortedMap MipInfo MipState} (h : (self.updateWith storeRaw).1 = .ok r)
    {k : MipInfo} {orig v : MipState} (horig : self.store.get? k = some orig)
    (hv : (self.updateWith storeRaw).2.store.get? k = some v) :
    orig.state.typeId.toU32 ≤ v.state.typeId.toU32 := by
  rcases get?_updateWith h k with hkeep | ⟨orig', v', horig', -, hle, -, hv'⟩
  · rw [hkeep, horig, Option.some.injEq] at hv
    rw [hv]
    exact UInt32.le_refl _
  · rw [horig, Option.some.injEq] at horig'
    rw [hv, Option.some.injEq] at hv'
    rw [horig', hv']
    exact hle

/-- After a merge that succeeds, every MIP of the local store is in a state
reachable from the one it had, or went from `LockedIn` to `Failed`. -/
theorem updateWith_reaches_or_lockedIn_failed {self storeRaw : MipStoreRaw}
    {r : List MipInfo × SortedMap MipInfo MipState} (h : (self.updateWith storeRaw).1 = .ok r)
    {k : MipInfo} {orig v : MipState} (horig : self.store.get? k = some orig)
    (hv : (self.updateWith storeRaw).2.store.get? k = some v) :
    Reaches orig.state.typeId v.state.typeId ∨
      (orig.state.typeId = .lockedIn ∧ v.state.typeId = .failed) := by
  rcases get?_updateWith h k with hkeep | ⟨orig', v', horig', hupd, hle, hcons, hv'⟩
  · rw [hkeep, horig, Option.some.injEq] at hv
    rw [hv]
    exact .inl .refl
  rw [horig, Option.some.injEq] at horig'
  rw [hv, Option.some.injEq] at hv'
  rw [← horig'] at hupd hle
  rw [← hv'] at hle hcons
  by_cases hlf : orig.state.typeId = .lockedIn ∧ v.state.typeId = .failed
  · exact .inr hlf
  have hne : v.state.typeId ≠ .error := by
    intro herr
    apply MipState.state_ne_error_of_isConsistentWith hcons
    cases hstate : v.state <;> first | rfl | (rw [hstate] at herr; cases herr)
  exact .inl (reaches_of_toU32_le (ComponentState.isUpdatable_iff.mp hupd) hne hle hlf)

/-- **What a merge does to the local store.**  A merge that fails leaves the
store as it was.  One that succeeds adds no MIP to it (the unknown ones are
returned in `to_add`), keeps an `Active`, `Failed` or `Error` state, and
leaves every other MIP in a state whose id is not lower and which the state
machine reaches from the old one, but for the step from `LockedIn` to
`Failed`. -/
theorem updateWith_spec (self storeRaw : MipStoreRaw) :
    (∀ e, (self.updateWith storeRaw).1 = .error e → (self.updateWith storeRaw).2 = self) ∧
    ∀ r, (self.updateWith storeRaw).1 = .ok r → ∀ k,
      (self.store.get? k = none → (self.updateWith storeRaw).2.store.get? k = none) ∧
      ∀ orig, self.store.get? k = some orig →
        ∃ v, (self.updateWith storeRaw).2.store.get? k = some v ∧
          (orig.state.isUpdatable = false → v = orig) ∧
          orig.state.typeId.toU32 ≤ v.state.typeId.toU32 ∧
          (Reaches orig.state.typeId v.state.typeId ∨
            (orig.state.typeId = .lockedIn ∧ v.state.typeId = .failed)) := by
  refine ⟨fun e h => updateWith_of_error h, fun r h k => ⟨fun hnone => ?_, fun orig horig => ?_⟩⟩
  · -- only the MIPs of the local store are replaced
    rcases get?_updateWith h k with hkeep | ⟨orig, v, horig, -⟩
    · rw [hkeep, hnone]
    · rw [hnone] at horig
      cases horig
  · obtain ⟨v, hv⟩ : ∃ v, (self.updateWith storeRaw).2.store.get? k = some v := by
      rcases get?_updateWith h k with hkeep | ⟨-, v, -, -, -, -, hv⟩
      · exact ⟨orig, hkeep.trans horig⟩
      · exact ⟨v, hv⟩
    refine ⟨v, hv, fun hfinal => ?_, typeId_le_of_updateWith h horig hv,
      updateWith_reaches_or_lockedIn_failed h horig hv⟩
    rw [get?_updateWith_of_not_updatable h horig hfinal] at hv
    exact (Option.some.inj hv).symm

/-- A node that saw the MIP lock in at 20 merges the state of a peer that
saw no vote and advanced at the timeout: the received `Failed` state is
consistent, its id 5 is above `LockedIn`'s 3, and the merge replaces the
`LockedIn` state by it, a step the state machine does not have. -/
theorem updateWith_replaces_lockedIn_by_failed :
    let m : MipInfo := ⟨"mip", 1, [], ⟨10⟩, ⟨100⟩, ⟨5⟩⟩
    let locked := (MipState.new ⟨0⟩).advanceAll [m.advance 0 ⟨10⟩, m.advance (9 / 10) ⟨20⟩]
    let failed := (MipState.new ⟨0⟩).onAdvance (m.advance 0 ⟨100⟩)
    let merged := MipStoreRaw.updateWith ⟨.singleton m locked⟩ ⟨.singleton m failed⟩
    locked.state.typeId = .lockedIn ∧ failed.isConsistentWith m = .ok () ∧
      merged.1.isOk = true ∧ (merged.2.store.get? m).map (·.state.typeId) = some .failed ∧
      ¬Reaches .lockedIn .failed :=
  ⟨by decide +kernel, by decide +kernel, by decide +kernel, by decide +kernel,
    not_reaches_lockedIn_failed⟩

end MipStoreRaw

end Massa
