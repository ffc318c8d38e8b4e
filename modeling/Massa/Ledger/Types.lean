import Massa.Lib.Action

/-!
# Set / update / delete changes (`massa-ledger-exports/src/types.rs`)

The three change types every speculative component of the node is built
from, with their `Applicable` implementations:

* `SetOrKeep T` — a field that is overwritten (`set`) or left (`keep`);
* `SetOrDelete T` — a value that is overwritten or removed;
* `SetUpdateOrDelete T V` — a whole value that is replaced, removed, or
  patched by an update `V`; an update of a missing value patches
  `T::default()`.

Each `apply` is the in-place `fn apply(&mut self, other)` of the source,
returning the new `self`.  The main results say that each of them is an
action merge in the sense of `Action.ActsBy` (`setOrKeep_actsBy`,
`setOrDelete_actsBy`, `setUpdateOrDelete_actsBy`): merging two changes and
applying the merge is applying the changes in turn.
-/

namespace Massa

open Action

/-- `trait Applicable<V>`: a structure that a `V` can be applied to. -/
class Applicable (T : Type) (V : Type) where
  apply : T → V → T

/-- `SetOrKeep<T>`. -/
inductive SetOrKeep (T : Type) where
  | set (v : T)
  | keep
  deriving DecidableEq, Repr

/-- `SetOrDelete<T>`. -/
inductive SetOrDelete (T : Type) where
  | set (v : T)
  | delete
  deriving DecidableEq, Repr

/-- `SetUpdateOrDelete<T, V>`. -/
inductive SetUpdateOrDelete (T : Type) (V : Type) where
  | set (v : T)
  | update (u : V)
  | delete
  deriving DecidableEq, Repr

namespace SetOrKeep

variable {T : Type}

/-- `impl Default for SetOrKeep`: keep the existing value. -/
instance : Inhabited (SetOrKeep T) := ⟨keep⟩

/-- `Applicable<SetOrKeep<T>>::apply`: only a `Set` in `other` replaces `self`. -/
def apply (self other : SetOrKeep T) : SetOrKeep T :=
  match other with
  | set v => set v
  | keep => self

/-- `SetOrKeep::apply_to`: write the value into `val` if `self` sets one. -/
def applyTo (self : SetOrKeep T) (val : T) : T :=
  match self with
  | set v => v
  | keep => val

instance : Applicable (SetOrKeep T) (SetOrKeep T) := ⟨apply⟩

@[simp] theorem apply_set (s : SetOrKeep T) (v : T) : s.apply (set v) = set v := rfl
@[simp] theorem apply_keep (s : SetOrKeep T) : s.apply keep = s := rfl
@[simp] theorem keep_apply (s : SetOrKeep T) : (keep : SetOrKeep T).apply s = s := by
  cases s <;> rfl
@[simp] theorem applyTo_set (v t : T) : (set v).applyTo t = v := rfl
@[simp] theorem applyTo_keep (t : T) : (keep : SetOrKeep T).applyTo t = t := rfl

/-- Applying a merged field change is applying its two parts in turn. -/
theorem setOrKeep_actsBy : ActsBy (fun (t : T) (s : SetOrKeep T) => s.applyTo t) apply := by
  intro t a b
  cases b <;> rfl

end SetOrKeep

namespace SetOrDelete

variable {T : Type}

/-- `Applicable<SetOrDelete<T>>::apply`: `other` replaces `self`. -/
def apply (_self other : SetOrDelete T) : SetOrDelete T := other

instance : Applicable (SetOrDelete T) (SetOrDelete T) := ⟨apply⟩

/-- The effect of a `SetOrDelete` on an optional value: the loop body of
`LedgerEntry::apply` (insert on `Set`, remove on `Delete`). -/
def applyToOpt (_cur : Option T) (self : SetOrDelete T) : Option T :=
  match self with
  | set v => some v
  | delete => none

@[simp] theorem applyToOpt_set (cur : Option T) (v : T) : applyToOpt cur (set v) = some v := rfl
@[simp] theorem applyToOpt_delete (cur : Option T) : applyToOpt cur (delete : SetOrDelete T) = none := rfl

theorem setOrDelete_actsBy : ActsBy (applyToOpt (T := T)) apply :=
  actsBy_overwrite (fun _ _ u => by cases u <;> rfl)

end SetOrDelete

namespace SetUpdateOrDelete

variable {T V : Type} [Inhabited T] [Applicable T V]

/-- `Applicable<SetUpdateOrDelete<T, V>>::apply`. -/
def apply [Applicable V V] (self other : SetUpdateOrDelete T V) : SetUpdateOrDelete T V :=
  match other with
  -- the other change sets a new absolute value: force it on self
  | set v => set v
  | update u =>
    match self with
    | set cur => set (Applicable.apply cur u)
    | update cur => update (Applicable.apply cur u)
    -- a deleted value is recreated from `T::default()` and patched
    | delete => set (Applicable.apply (default : T) u)
  | delete => delete

instance [Applicable V V] : Applicable (SetUpdateOrDelete T V) (SetUpdateOrDelete T V) :=
  ⟨apply⟩

/-- The abstract meaning of a change on an optional value: `Set` replaces,
`Update` patches the current value (or `T::default()` when there is none),
`Delete` removes.  This is the semantics the enumeration's documentation
gives; it is stated here, not taken from a function of the source. -/
def applyToOpt (cur : Option T) (self : SetUpdateOrDelete T V) : Option T :=
  match self with
  | set v => some v
  | update u => some (Applicable.apply (cur.getD default) u)
  | delete => none

@[simp] theorem applyToOpt_set (cur : Option T) (v : T) :
    applyToOpt cur (set v : SetUpdateOrDelete T V) = some v := rfl

@[simp] theorem applyToOpt_update (cur : Option T) (u : V) :
    applyToOpt cur (update u : SetUpdateOrDelete T V) =
      some (Applicable.apply (cur.getD default) u) := rfl

@[simp] theorem applyToOpt_delete (cur : Option T) :
    applyToOpt cur (delete : SetUpdateOrDelete T V) = none := rfl

/-- **The change merge is an action merge**, given that the update merge is
one for `T`: nine cases, of which `Delete` then `Update` is the one that
rebuilds a default value. -/
theorem setUpdateOrDelete_actsBy [Applicable V V]
    (h : ActsBy (Applicable.apply : T → V → T) (Applicable.apply : V → V → V)) :
    ActsBy (applyToOpt (T := T) (V := V)) apply := by
  intro cur a b
  cases b with
  | set v => rfl
  | delete => rfl
  | update u =>
    cases a with
    | set t => rfl
    | delete => rfl
    | update w =>
      show some (Applicable.apply (Applicable.apply (cur.getD default) w) u) =
        some (Applicable.apply (cur.getD default) (Applicable.apply w u))
      rw [h]

end SetUpdateOrDelete

end Massa
