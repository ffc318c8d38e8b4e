import Massa.Ledger.Types
import Massa.Models.Basic
import Massa.Models.Slot
import Mathlib.Algebra.Order.Ring.Unbundled.Rat

/-!
# Asynchronous messages (`massa-async-pool/src/message.rs`)

An `AsyncMessage` is a deferred call emitted by a smart contract, waiting in
the pool until a slot of its validity interval `[validity_start,
validity_end)` executes it or until it expires.  Messages are keyed by
`AsyncMessageId = (Reverse<Ratio<u64>>, Slot, u64)`: fee per unit of gas
(higher first), then emission slot and index.  The pool keeps, besides the
messages, their `AsyncMessageInfo` summaries; both are patched by
`AsyncMessageUpdate`s.

`AsyncMessage.apply_actsBy` states that merging two updates with
`AsyncMessageUpdate::apply` and applying the merge is applying the two in
turn (the later `Set` of each field wins): the semantics that a lookup
through the pool's change layers has to reproduce.
-/

namespace Massa

open Action

/-- `AsyncMessageTrigger`: a filter on ledger writes that activates a message. -/
structure AsyncMessageTrigger where
  address : Address
  datastoreKey : Option Bytes
  deriving DecidableEq, Repr

/-- `AsyncMessage`. -/
structure AsyncMessage where
  emissionSlot : Slot
  emissionIndex : UInt64
  sender : Address
  destination : Address
  function : String
  maxGas : UInt64
  fee : Amount
  coins : Amount
  validityStart : Slot
  validityEnd : Slot
  functionParams : Bytes
  trigger : Option AsyncMessageTrigger
  canBeExecuted : Bool
  deriving DecidableEq, Repr

/-- `AsyncMessageId = (Reverse<Ratio<u64>>, Slot, u64)`.  The fee ratio is a
`num-rational` ratio, compared by value: it is kept as the rational number it
denotes. -/
structure AsyncMessageId where
  feeRatio : ℚ
  emissionSlot : Slot
  emissionIndex : UInt64
  deriving DecidableEq

namespace AsyncMessageId

/-- The tuple the derived `Ord` compares: the ratio reversed, then the slot,
then the index. -/
def cmpKey (id : AsyncMessageId) : Lex (ℚᵒᵈ × Lex (Slot × ℕ)) :=
  toLex (OrderDual.toDual id.feeRatio, toLex (id.emissionSlot, id.emissionIndex.toNat))

theorem cmpKey_injective : Function.Injective cmpKey := by
  rintro ⟨r, s, i⟩ ⟨r', s', i'⟩ h
  simp only [cmpKey, toLex_inj, Prod.mk.injEq, OrderDual.toDual_inj] at h
  obtain ⟨rfl, rfl, hi⟩ := h
  rw [UInt64.toNat_inj.mp hi]

instance : LinearOrder AsyncMessageId := LinearOrder.lift' cmpKey cmpKey_injective

end AsyncMessageId

namespace AsyncMessage

/-- `AsyncMessage::compute_id`: fee per unit of gas (a zero gas counts as
one), emission slot and index. -/
def computeId (self : AsyncMessage) : AsyncMessageId :=
  let denom : UInt64 := if self.maxGas > 0 then self.maxGas else 1
  ⟨(self.fee.raw.toNat : ℚ) / (denom.toNat : ℚ), self.emissionSlot, self.emissionIndex⟩

/-- `impl Default for AsyncMessage`.  The source fills the slots and addresses
and then calls `..Default::default()`, that is itself again: the call never
returns.  Its only caller in the modelled code is the `Delete`-then-`Update`
branch of `SetUpdateOrDelete::apply`; the value here stands for it. -/
instance : Inhabited AsyncMessage :=
  ⟨⟨⟨0, 0⟩, 0, .user ⟨Vector.replicate 32 0⟩, .user ⟨Vector.replicate 32 0⟩, "", 0,
    default, default, ⟨0, 0⟩, ⟨0, 0⟩, [], none, false⟩⟩

end AsyncMessage

/-- `AsyncMessageInfo`: the part of a message the pool keeps in memory. -/
structure AsyncMessageInfo where
  validityStart : Slot
  validityEnd : Slot
  maxGas : UInt64
  canBeExecuted : Bool
  trigger : Option AsyncMessageTrigger
  deriving DecidableEq, Repr

/-- `impl From<AsyncMessage> for AsyncMessageInfo`. -/
def AsyncMessageInfo.ofMessage (m : AsyncMessage) : AsyncMessageInfo :=
  ⟨m.validityStart, m.validityEnd, m.maxGas, m.canBeExecuted, m.trigger⟩

/-- `AsyncMessageUpdate`: one `SetOrKeep` per field of `AsyncMessage`. -/
@[ext]
structure AsyncMessageUpdate where
  emissionSlot : SetOrKeep Slot := .keep
  emissionIndex : SetOrKeep UInt64 := .keep
  sender : SetOrKeep Address := .keep
  destination : SetOrKeep Address := .keep
  function : SetOrKeep String := .keep
  maxGas : SetOrKeep UInt64 := .keep
  fee : SetOrKeep Amount := .keep
  coins : SetOrKeep Amount := .keep
  validityStart : SetOrKeep Slot := .keep
  validityEnd : SetOrKeep Slot := .keep
  functionParams : SetOrKeep Bytes := .keep
  trigger : SetOrKeep (Option AsyncMessageTrigger) := .keep
  canBeExecuted : SetOrKeep Bool := .keep
  deriving DecidableEq, Repr

/-- `#[derive(Default)]`: keep every field. -/
instance : Inhabited AsyncMessageUpdate := ⟨{}⟩

namespace AsyncMessageUpdate

/-- `Applicable<AsyncMessageUpdate> for AsyncMessageUpdate`: extend `self` with a
later update, field by field. -/
def apply (self update : AsyncMessageUpdate) : AsyncMessageUpdate where
  emissionSlot := self.emissionSlot.apply update.emissionSlot
  emissionIndex := self.emissionIndex.apply update.emissionIndex
  sender := self.sender.apply update.sender
  destination := self.destination.apply update.destination
  function := self.function.apply update.function
  maxGas := self.maxGas.apply update.maxGas
  fee := self.fee.apply update.fee
  coins := self.coins.apply update.coins
  validityStart := self.validityStart.apply update.validityStart
  validityEnd := self.validityEnd.apply update.validityEnd
  functionParams := self.functionParams.apply update.functionParams
  trigger := self.trigger.apply update.trigger
  canBeExecuted := self.canBeExecuted.apply update.canBeExecuted

instance : Applicable AsyncMessageUpdate AsyncMessageUpdate := ⟨apply⟩

/-- The default update keeps every field: merging a later update into it
gives that update. -/
theorem default_apply (update : AsyncMessageUpdate) : (default : AsyncMessageUpdate).apply update = update := by
  cases update
  simp only [apply]
  congr 1 <;> exact SetOrKeep.keep_apply _

end AsyncMessageUpdate

namespace AsyncMessage

/-- `Applicable<AsyncMessageUpdate> for AsyncMessage`. -/
def apply (self : AsyncMessage) (update : AsyncMessageUpdate) : AsyncMessage where
  emissionSlot := update.emissionSlot.applyTo self.emissionSlot
  emissionIndex := update.emissionIndex.applyTo self.emissionIndex
  sender := update.sender.applyTo self.sender
  destination := update.destination.applyTo self.destination
  function := update.function.applyTo self.function
  maxGas := update.maxGas.applyTo self.maxGas
  fee := update.fee.applyTo self.fee
  coins := update.coins.applyTo self.coins
  validityStart := update.validityStart.applyTo self.validityStart
  validityEnd := update.validityEnd.applyTo self.validityEnd
  functionParams := update.functionParams.applyTo self.functionParams
  trigger := update.trigger.applyTo self.trigger
  canBeExecuted := update.canBeExecuted.applyTo self.canBeExecuted

instance : Applicable AsyncMessage AsyncMessageUpdate := ⟨apply⟩

/-- Applying a merged update is applying its two parts in turn: each field is
a `SetOrKeep`, for which this is `SetOrKeep.setOrKeep_actsBy`. -/
theorem apply_actsBy : ActsBy AsyncMessage.apply AsyncMessageUpdate.apply := by
  intro m u v
  simp only [apply, AsyncMessageUpdate.apply]
  congr 1 <;> exact SetOrKeep.setOrKeep_actsBy _ _ _

end AsyncMessage

/-- `Applicable<AsyncMessageUpdate> for AsyncMessageInfo`: the fields the
summary keeps. -/
def AsyncMessageInfo.apply (self : AsyncMessageInfo) (update : AsyncMessageUpdate) :
    AsyncMessageInfo where
  validityStart := update.validityStart.applyTo self.validityStart
  validityEnd := update.validityEnd.applyTo self.validityEnd
  maxGas := update.maxGas.applyTo self.maxGas
  canBeExecuted := update.canBeExecuted.applyTo self.canBeExecuted
  trigger := update.trigger.applyTo self.trigger

end Massa
