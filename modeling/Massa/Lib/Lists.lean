import Mathlib

/-!
# Facts about lists and options used by the byte-level models

* The lexicographic order of lists compares lists with a common prefix by
  what follows it (`append_lt_append_left_iff`), and lists whose first parts
  have the same length by those parts first (`append_lt_append_of_lt`).  A
  database orders its keys this way, so these facts say which keys a range
  scan visits.
* A fold whose steps either succeed as a pure function or fail
  (`foldlM` in `Except`) returns, when it succeeds, the pure fold
  (`foldlM_eq_ok`), succeeds when every step does
  (`foldlM_eq_ok_of_forall`), and ends in a value with any property its
  successful steps keep (`foldlM_invariant`); a map in `Except` whose steps
  all succeed returns the pure map (`mapM_eq_ok_of_forall`).  A fold whose steps keep a projection keeps it
  (`apply_foldl_of_forall`).
* A default read through `some` is a fallback (`Option.getD_map_some`), and a
  step of `Except` that succeeds passes its value on (`Except.ok_bind`), and
  mapping the error changes no success (`Except.mapError_eq_ok`).
-/

namespace List

variable {α : Type*} [LinearOrder α]

/-- Lists with a common prefix compare as what follows it. -/
theorem append_lt_append_left_iff (p s t : List α) : p ++ s < p ++ t ↔ s < t := by
  induction p with
  | nil => rfl
  | cons a p ih =>
    show List.Lex (· < ·) (a :: (p ++ s)) (a :: (p ++ t)) ↔ _
    rw [lex_cons_iff]
    exact ih

theorem append_le_append_left_iff (p s t : List α) : p ++ s ≤ p ++ t ↔ s ≤ t := by
  rw [← not_lt, ← not_lt, append_lt_append_left_iff]

/-- Lists whose first parts have the same length compare by those parts
first, whatever follows. -/
theorem append_lt_append_of_lt {q p : List α} (hlen : q.length = p.length) (h : q < p)
    (s t : List α) : q ++ s < p ++ t := by
  change List.Lex (· < ·) q p at h
  change List.Lex (· < ·) (q ++ s) (p ++ t)
  induction h with
  | nil => simp at hlen
  | cons _ ih => exact .cons (ih (by simpa using hlen))
  | rel hab => exact .rel hab

/-- A list is at most any of its extensions. -/
theorem le_append_self (l x : List α) : l ≤ l ++ x := by
  cases x with
  | nil => rw [append_nil]
  | cons b x =>
    have hlex : List.Lex (· < ·) (l ++ []) (l ++ b :: x) := List.Lex.append_left _ List.Lex.nil l
    rw [append_nil] at hlex
    exact le_of_lt hlex

/-- Two nonempty lists compare by their heads, then by their tails. -/
theorem cons_le_cons_iff' {a b : α} {l l' : List α} :
    a :: l ≤ b :: l' ↔ a < b ∨ (a = b ∧ l ≤ l') := by
  rw [le_iff_lt_or_eq, le_iff_lt_or_eq]
  show List.Lex (· < ·) (a :: l) (b :: l') ∨ _ ↔ _
  rw [cons_lex_cons_iff, cons_eq_cons]
  constructor
  · rintro ((hab | ⟨rfl, hl⟩) | ⟨rfl, rfl⟩)
    · exact .inl hab
    · exact .inr ⟨rfl, .inl hl⟩
    · exact .inr ⟨rfl, .inr rfl⟩
  · rintro (hab | ⟨rfl, hl | rfl⟩)
    · exact .inl (.inl hab)
    · exact .inl (.inr ⟨rfl, hl⟩)
    · exact .inr ⟨rfl, rfl⟩

/-- **Prefixes are intervals.**  A list between two lists with a common
prefix has that prefix: the keys under a prefix are contiguous in key
order. -/
theorem IsPrefix.of_le_of_le {p a b c : List α} (ha : p <+: a) (hc : p <+: c) (hab : a ≤ b)
    (hbc : b ≤ c) : p <+: b := by
  induction p generalizing a b c with
  | nil => exact nil_prefix
  | cons x p ih =>
    obtain ⟨ta, rfl⟩ := ha
    obtain ⟨tc, rfl⟩ := hc
    cases b with
    | nil =>
      -- a nonempty list is not below the empty one
      rcases le_iff_lt_or_eq.mp hab with hlt | heq
      · have hlex : List.Lex (· < ·) (x :: p ++ ta) [] := hlt
        cases hlex
      · cases heq
    | cons y b =>
      rw [cons_append, cons_le_cons_iff'] at hab
      rw [cons_append, cons_le_cons_iff'] at hbc
      -- the heads agree, and the tails are again between two lists with prefix `p`
      rcases hab with hxy | ⟨hxy, hab⟩
      · rcases hbc with hyx | ⟨hyx, -⟩
        · exact absurd (hxy.trans hyx) (lt_irrefl x)
        · subst hyx
          exact absurd hxy (lt_irrefl _)
      subst hxy
      rcases hbc with hyx | ⟨-, hbc⟩
      · exact absurd hyx (lt_irrefl x)
      exact (prefix_cons_inj x).mpr (ih (prefix_append p ta) (prefix_append p tc) hab hbc)

end List

namespace List

variable {ε α β : Type*}

/-- A predicate that holds exactly at the positions `i` to `i + k - 1` of a
list picks out that slice. -/
theorem filter_eq_take_drop {p : β → Bool} {l : List β} {i k : ℕ}
    (hp : ∀ (idx : ℕ) (h : idx < l.length), p l[idx] = true ↔ i ≤ idx ∧ idx < i + k) :
    l.filter p = (l.drop i).take k := by
  induction l generalizing i k with
  | nil => simp
  | cons b l ih =>
    -- the head is in the slice exactly when the slice starts at it
    have hhead : p b = true ↔ i = 0 ∧ 0 < k := by
      rw [show p b = p (b :: l)[0] from rfl, hp 0 (by simp)]
      omega
    have htail : ∀ (idx : ℕ) (h : idx < l.length), p l[idx] = true ↔ i ≤ idx + 1 ∧ idx + 1 < i + k :=
      fun idx h => hp (idx + 1) (by simp [h])
    rcases i with _ | i
    · rcases k with _ | k
      · rw [filter_cons_of_neg (by simp [hhead]), ih (i := 0) (k := 0) fun idx h => by
          rw [htail idx h]; omega]
        simp
      · rw [filter_cons_of_pos (hhead.mpr ⟨rfl, by omega⟩), ih (i := 0) (k := k) fun idx h => by
          rw [htail idx h]; omega]
        simp
    · rw [filter_cons_of_neg (by simp [hhead]), ih (i := i) (k := k) fun idx h => by
        rw [htail idx h]; omega]
      simp

/-- A fold in `Except` whose successful steps are those of `g` returns the
fold of `g` when it succeeds. -/
theorem foldlM_eq_ok {f : α → β → Except ε α} {g : α → β → α}
    (hf : ∀ a b r, f a b = .ok r → r = g a b) {l : List β} {init r : α}
    (h : l.foldlM f init = .ok r) : r = l.foldl g init := by
  induction l generalizing init with
  | nil =>
    simp only [foldlM_nil] at h
    cases h
    rfl
  | cons b l ih =>
    rw [foldlM_cons] at h
    cases hstep : f init b with
    | error e =>
      rw [hstep] at h
      cases h
    | ok a =>
      rw [hstep] at h
      rw [foldl_cons, ← hf init b a hstep]
      exact ih h

/-- A fold in `Except` whose every step succeeds as `g` succeeds with the fold
of `g`. -/
theorem foldlM_eq_ok_of_forall {f : α → β → Except ε α} {g : α → β → α} {l : List β}
    (hf : ∀ a, ∀ b ∈ l, f a b = .ok (g a b)) (init : α) :
    l.foldlM f init = .ok (l.foldl g init) := by
  induction l generalizing init with
  | nil => rfl
  | cons b l ih =>
    rw [foldlM_cons, hf init b mem_cons_self, foldl_cons]
    exact ih (fun a b hb => hf a b (mem_cons_of_mem _ hb)) (g init b)

/-- A fold in `Except` whose successful steps keep `P` ends, when it
succeeds, in a value with `P`. -/
theorem foldlM_invariant (P : α → Prop) {f : α → β → Except ε α}
    (hf : ∀ a b r, P a → f a b = .ok r → P r) {l : List β} {init r : α} (hinit : P init)
    (h : l.foldlM f init = .ok r) : P r := by
  induction l generalizing init with
  | nil =>
    simp only [foldlM_nil] at h
    cases h
    exact hinit
  | cons b l ih =>
    rw [foldlM_cons] at h
    cases hstep : f init b with
    | error e =>
      rw [hstep] at h
      cases h
    | ok a =>
      rw [hstep] at h
      exact ih (hf init b a hinit hstep) h

/-- A map in `Except` whose every step succeeds as `g` succeeds with the map
of `g`. -/
theorem mapM_eq_ok_of_forall {f : β → Except ε α} {g : β → α} {l : List β}
    (hf : ∀ b ∈ l, f b = .ok (g b)) : l.mapM f = .ok (l.map g) := by
  induction l with
  | nil => rfl
  | cons b l ih =>
    rw [mapM_cons, hf b mem_cons_self, ih fun b hb => hf b (mem_cons_of_mem _ hb)]
    rfl

/-- One step of `Iterator::max_by_key`: a key at least the best one so far
wins, so that the last of equal maxima is kept. -/
def maxByKeyStep (f : β → ℕ) : Option β → β → Option β
  | none, b => some b
  | some a, b => if f a ≤ f b then some b else some a

/-- `Iterator::max_by_key`: the last element of greatest key, if any. -/
def maxByKey (l : List β) (f : β → ℕ) : Option β :=
  l.foldl (maxByKeyStep f) none

/-- The element a fold of `max_by_key` steps keeps is its start or an
element of the list. -/
theorem foldl_maxByKeyStep_mem {f : β → ℕ} {l : List β} {init : Option β} {b : β}
    (h : l.foldl (maxByKeyStep f) init = some b) : init = some b ∨ b ∈ l := by
  induction l generalizing init with
  | nil => exact .inl h
  | cons c l ih =>
    rcases ih h with hstep | hmem
    · -- the step kept `b`: it was the best so far, or it is `c`
      cases init with
      | none =>
        cases hstep
        exact .inr mem_cons_self
      | some a =>
        simp only [maxByKeyStep] at hstep
        split_ifs at hstep
        · cases hstep
          exact .inr mem_cons_self
        · exact .inl hstep
    · exact .inr (mem_cons_of_mem c hmem)

/-- `max_by_key` returns an element of the list. -/
theorem maxByKey_mem {f : β → ℕ} {l : List β} {b : β} (h : l.maxByKey f = some b) : b ∈ l :=
  (foldl_maxByKeyStep_mem h).resolve_left nofun

/-- Once a fold of `max_by_key` steps holds an element, it keeps one. -/
theorem foldl_maxByKeyStep_some (f : β → ℕ) (l : List β) (a : β) :
    ∃ b, l.foldl (maxByKeyStep f) (some a) = some b := by
  induction l generalizing a with
  | nil => exact ⟨a, rfl⟩
  | cons c l ih =>
    rw [foldl_cons]
    simp only [maxByKeyStep]
    split_ifs
    · exact ih c
    · exact ih a

/-- `max_by_key` of a non-empty list returns an element. -/
theorem maxByKey_eq_some_of_ne_nil (f : β → ℕ) {l : List β} (hl : l ≠ []) :
    ∃ b, l.maxByKey f = some b := by
  obtain ⟨c, l, rfl⟩ := exists_cons_of_ne_nil hl
  exact foldl_maxByKeyStep_some f l c

/-- A fold whose every step keeps `f` keeps `f`. -/
theorem apply_foldl_of_forall {γ : Type*} (f : α → γ) {g : α → β → α}
    (hg : ∀ a b, f (g a b) = f a) (l : List β) (init : α) : f (l.foldl g init) = f init := by
  induction l generalizing init with
  | nil => rfl
  | cons b l ih => rw [foldl_cons, ih, hg]

end List

namespace Option

variable {α : Type*}

theorem getD_map_some (o x : Option α) : (o.map some).getD x = o.or x := by
  cases o <;> rfl

@[simp] theorem filter_const_true (o : Option α) : o.filter (fun _ => true) = o := by
  cases o <;> rfl

end Option

namespace Except

/-- A step that succeeds passes its value to the rest of the computation. -/
@[simp] theorem ok_bind {ε : Type u} {α β : Type v} (a : α) (f : α → Except ε β) :
    (Except.ok a >>= f) = f a := rfl

/-- Mapping the error changes no success. -/
@[simp] theorem mapError_eq_ok {ε ε' α : Type u} {x : Except ε α} {f : ε → ε'} {a : α} :
    x.mapError f = .ok a ↔ x = .ok a := by
  cases x <;> simp [Except.mapError]

end Except
