import Massa.AsyncPool.Message
import Massa.Lib.SortedMap

/-!
# Changes to the asynchronous pool (`massa-async-pool/src/changes.rs`)

`AsyncPoolChanges` maps message ids to a `SetUpdateOrDelete` of the message,
in id order.  It is extended with later changes by `apply`, entry by entry,
and written to by `push_add`, `push_delete` and `push_activate`, each of
which applies a one-entry change set.
-/

namespace Massa

/-- A change to one message. -/
abbrev MessageChange := SetUpdateOrDelete AsyncMessage AsyncMessageUpdate

/-- `AsyncPoolChanges(BTreeMap<AsyncMessageId, SetUpdateOrDelete<AsyncMessage,
AsyncMessageUpdate>>)`. -/
abbrev AsyncPoolChanges := SortedMap AsyncMessageId MessageChange

namespace AsyncPoolChanges

/-- `Applicable<AsyncPoolChanges>::apply`: extend with later changes, applying
an incoming change to the one already there or inserting it. -/
def apply (self changes : AsyncPoolChanges) : AsyncPoolChanges :=
  self.mergeWith SetUpdateOrDelete.apply changes

/-- `AsyncPoolChanges::push_add`. -/
def pushAdd (self : AsyncPoolChanges) (id : AsyncMessageId) (msg : AsyncMessage) :
    AsyncPoolChanges :=
  self.apply (SortedMap.singleton id (.set msg))

/-- `AsyncPoolChanges::push_delete`. -/
def pushDelete (self : AsyncPoolChanges) (id : AsyncMessageId) : AsyncPoolChanges :=
  self.apply (SortedMap.singleton id .delete)

/-- `AsyncPoolChanges::push_activate`: an update that only sets
`can_be_executed` to `true`. -/
def pushActivate (self : AsyncPoolChanges) (id : AsyncMessageId) : AsyncPoolChanges :=
  self.apply (SortedMap.singleton id (.update { canBeExecuted := .set true }))

theorem get?_apply (self changes : AsyncPoolChanges) (id : AsyncMessageId) :
    (self.apply changes).get? id =
      Action.optComp SetUpdateOrDelete.apply (self.get? id) (changes.get? id) :=
  SortedMap.get?_mergeWith _ self changes id

/-- A one-entry change set changes only its own id. -/
theorem get?_apply_singleton (self : AsyncPoolChanges) (id q : AsyncMessageId) (change : MessageChange) :
    (self.apply (.singleton id change)).get? q =
      if q = id then some ((self.get? q).elim change fun cur => cur.apply change) else self.get? q := by
  rw [get?_apply, SortedMap.get?_singleton]
  split_ifs
  · cases self.get? q <;> rfl
  · exact Action.optComp_none_right _ _

theorem get?_pushAdd_self (self : AsyncPoolChanges) (id : AsyncMessageId) (msg : AsyncMessage) :
    (self.pushAdd id msg).get? id = some (.set msg) := by
  rw [pushAdd, get?_apply_singleton, if_pos rfl]
  cases self.get? id <;> rfl

theorem get?_pushDelete_of_ne (self : AsyncPoolChanges) {id q : AsyncMessageId} (h : q ≠ id) :
    (self.pushDelete id).get? q = self.get? q := by
  rw [pushDelete, get?_apply_singleton, if_neg h]

theorem get?_pushActivate_of_ne (self : AsyncPoolChanges) {id q : AsyncMessageId} (h : q ≠ id) :
    (self.pushActivate id).get? q = self.get? q := by
  rw [pushActivate, get?_apply_singleton, if_neg h]

end AsyncPoolChanges

end Massa
