import Mathlib.Logic.Function.Basic

/-!
# Reading through stacked change layers

A state is often kept as a base value plus a stack of change layers that are
never merged into it: a read looks at the newest layer first, and goes down
only while a layer does not know the answer.  `firstAnswer look ls base` is
that read, for layers `ls` listed newest first, where `look l` is the answer
layer `l` gives on its own (`none` when it has none) and `base` is the read
on the base state.

The point of such a design is that the lazy read agrees with the read on the
state obtained by applying every layer, oldest first.  That holds as soon as
each single layer "reads through" (`ReadsThrough`): after applying it, the
read is its own answer or, when it has none, the read before.  Often a layer
reads through only on some states (for instance when it never updates an
absent entry), so the run rule `firstAnswer_reverse` takes a condition
`good s l` on each step and asks it along the whole run (`GoodRun`).
-/

namespace Layers

universe u v w

variable {σ : Type u} {γ : Type v} {ρ : Type w}

/-- The read through layers listed newest first: the first layer that knows
the answer gives it, and `base` is the answer when none does. -/
def firstAnswer (look : γ → Option ρ) : List γ → ρ → ρ
  | [], base => base
  | l :: ls, base => (look l).getD (firstAnswer look ls base)

@[simp] theorem firstAnswer_nil (look : γ → Option ρ) (base : ρ) :
    firstAnswer look [] base = base := rfl

@[simp] theorem firstAnswer_cons (look : γ → Option ρ) (l : γ) (ls : List γ) (base : ρ) :
    firstAnswer look (l :: ls) base = (look l).getD (firstAnswer look ls base) := rfl

/-- Layers above read through the answer of the layers below. -/
theorem firstAnswer_append (look : γ → Option ρ) (ls ls' : List γ) (base : ρ) :
    firstAnswer look (ls ++ ls') base = firstAnswer look ls (firstAnswer look ls' base) := by
  induction ls with
  | nil => rfl
  | cons l ls ih => simp [ih]

/-- Layer `l` reads through on state `s`: after applying it, the read is its
own answer, or the read on `s` when it has none. -/
def ReadsThrough (read : σ → ρ) (step : σ → γ → σ) (look : γ → Option ρ) (s : σ)
    (l : γ) : Prop :=
  read (step s l) = (look l).getD (read s)

/-- Every step of the run applying `ls` (oldest first) from `s` satisfies
`good`. -/
def GoodRun (step : σ → γ → σ) (good : σ → γ → Prop) : σ → List γ → Prop
  | _, [] => True
  | s, l :: ls => good s l ∧ GoodRun step good (step s l) ls

@[simp] theorem goodRun_nil (step : σ → γ → σ) (good : σ → γ → Prop) (s : σ) :
    GoodRun step good s [] := trivial

@[simp] theorem goodRun_cons (step : σ → γ → σ) (good : σ → γ → Prop) (s : σ) (l : γ)
    (ls : List γ) : GoodRun step good s (l :: ls) ↔ good s l ∧ GoodRun step good (step s l) ls :=
  Iff.rfl

/-- A condition that holds at every step holds along every run. -/
theorem goodRun_of_forall {step : σ → γ → σ} {good : σ → γ → Prop}
    (h : ∀ s l, good s l) : ∀ (s : σ) (ls : List γ), GoodRun step good s ls := by
  intro s ls
  induction ls generalizing s with
  | nil => trivial
  | cons l ls ih => exact ⟨h s l, ih _⟩

/-- **The lazy read is the read of the materialised state.**  If every step
whose condition holds reads through, then along a good run the read through
the layers (newest first) on top of the read of `s` is the read of the state
obtained by applying the layers to `s` (oldest first). -/
theorem firstAnswer_reverse {read : σ → ρ} {step : σ → γ → σ} {look : γ → Option ρ}
    {good : σ → γ → Prop} (hthrough : ∀ s l, good s l → ReadsThrough read step look s l) :
    ∀ (ls : List γ) (s : σ), GoodRun step good s ls →
      firstAnswer look ls.reverse (read s) = read (ls.foldl step s) := by
  intro ls
  induction ls with
  | nil => intro s _; rfl
  | cons l ls ih =>
    intro s hrun
    obtain ⟨hgood, hrest⟩ := hrun
    -- the oldest layer sits at the bottom of the reversed stack
    calc firstAnswer look (l :: ls).reverse (read s)
        = firstAnswer look ls.reverse ((look l).getD (read s)) := by
          rw [List.reverse_cons, firstAnswer_append, firstAnswer_cons, firstAnswer_nil]
      _ = firstAnswer look ls.reverse (read (step s l)) := by rw [hthrough s l hgood]
      _ = read (ls.foldl step (step s l)) := ih _ hrest

end Layers
