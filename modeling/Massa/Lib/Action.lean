import Mathlib.Logic.Function.Basic

/-!
# Updates acting on values

An update `u : β` acts on a value `a : α` by `act a u`, and two updates are
merged by `comp u v`, read "`u`, then `v`".  `ActsBy act comp` says that the
merged update does what its parts do in order.  Change sets of key-value
stores are built from two such constructions, and both preserve `ActsBy`:

* `optAct` / `optComp` — an update that may be absent (the absent update
  leaves the value alone and is neutral for merging);
* `pointwise` — a family of updates indexed by keys, acting on a family of
  values key by key.

`actsBy_opt` and `actsBy_pointwise` are the two lifting rules; a store whose
change set is assembled from these shapes inherits `ActsBy` from its leaves.
-/

namespace Action

variable {α β κ : Type*}

/-- Acting by the merge `comp u v` is acting by `u`, then by `v`. -/
def ActsBy (act : α → β → α) (comp : β → β → β) : Prop :=
  ∀ a u v, act (act a u) v = act a (comp u v)

/-- Action of an optional update: the absent update leaves the value. -/
def optAct (act : α → β → α) (a : α) : Option β → α
  | none => a
  | some u => act a u

/-- Merge of optional updates: an absent side is neutral. -/
def optComp (comp : β → β → β) : Option β → Option β → Option β
  | none, v => v
  | some u, none => some u
  | some u, some v => some (comp u v)

@[simp] theorem optAct_none (act : α → β → α) (a : α) : optAct act a none = a := rfl

@[simp] theorem optAct_some (act : α → β → α) (a : α) (u : β) :
    optAct act a (some u) = act a u := rfl

@[simp] theorem optComp_none_left (comp : β → β → β) (v : Option β) :
    optComp comp none v = v := rfl

@[simp] theorem optComp_none_right (comp : β → β → β) (u : Option β) :
    optComp comp u none = u := by
  cases u <;> rfl

@[simp] theorem optComp_some_some (comp : β → β → β) (u v : β) :
    optComp comp (some u) (some v) = some (comp u v) := rfl

/-- **Lifting rule for optional updates.** -/
theorem actsBy_opt {act : α → β → α} {comp : β → β → β} (h : ActsBy act comp) :
    ActsBy (optAct act) (optComp comp) := by
  intro a u v
  cases u with
  | none => simp
  | some u =>
    cases v with
    | none => simp
    | some v => exact h a u v

/-- Key-by-key action of a family of updates on a family of values. -/
def pointwise (act : α → β → α) (m : κ → α) (c : κ → β) : κ → α :=
  fun k => act (m k) (c k)

/-- Key-by-key merge of two families of updates. -/
def pointwiseComp (comp : β → β → β) (c d : κ → β) : κ → β :=
  fun k => comp (c k) (d k)

@[simp] theorem pointwise_apply (act : α → β → α) (m : κ → α) (c : κ → β) (k : κ) :
    pointwise act m c k = act (m k) (c k) := rfl

@[simp] theorem pointwiseComp_apply (comp : β → β → β) (c d : κ → β) (k : κ) :
    pointwiseComp comp c d k = comp (c k) (d k) := rfl

/-- **Lifting rule for keyed families.** -/
theorem actsBy_pointwise {act : α → β → α} {comp : β → β → β} (h : ActsBy act comp) :
    ActsBy (pointwise (κ := κ) act) (pointwiseComp comp) := by
  intro m c d
  funext k
  exact h (m k) (c k) (d k)

/-- The overwriting merge (the later update wins) is an action merge for any
action whose result forgets the value acted on. -/
theorem actsBy_overwrite {act : α → β → α} (h : ∀ a b u, act a u = act b u) :
    ActsBy act (fun _ v => v) := by
  intro a u v
  exact h _ _ v

end Action
