import Massa.Lib.Action
import Mathlib.Data.List.Sort
import Mathlib.Data.Finset.Card

/-!
# Sorted association lists: a model of ordered maps

`SortedMap κ ν` is a list of key/value entries whose keys strictly increase,
the abstract state of a B-tree map.  Iteration is the list order, `get?`
finds the entry of a key, and every operation keeps the keys sorted, so that
an ill-formed map cannot be built.

The raw list functions (`lookup`, `insertRaw`) work on any list; sortedness
is what makes the entries determined by their lookups (`SortedMap.ext`) and
what lets a fold over the entries visit every key exactly once.

Main API, each with its reading lemma:
* `get?_insert`, `get?_erase`, `get?_filter`, `get?_write` — point reads
  after a write;
* `get?_writeAll` — reads after a whole write batch: the batch's last write
  of the key wins;
* `mem_entries_iff` — an entry is in the list iff the key reads its value;
* `ext` — two maps with the same reads are equal.
-/

universe u v

variable {κ : Type u} {ν : Type v}

/-- First value stored under `k`. -/
def lookup [DecidableEq κ] (k : κ) : List (κ × ν) → Option ν
  | [] => none
  | (k', x) :: rest => if k' = k then some x else lookup k rest

/-- Insert or replace the entry of `k`, keeping a sorted list sorted. -/
def insertRaw [LinearOrder κ] (k : κ) (x : ν) : List (κ × ν) → List (κ × ν)
  | [] => [(k, x)]
  | (k', x') :: rest =>
    if k < k' then (k, x) :: (k', x') :: rest
    else if k = k' then (k, x) :: rest
    else (k', x') :: insertRaw k x rest

/-- A key above every key of the list is inserted at its end. -/
theorem insertRaw_of_forall_lt [LinearOrder κ] {k : κ} (x : ν) {l : List (κ × ν)}
    (h : ∀ e ∈ l, e.1 < k) : insertRaw k x l = l ++ [(k, x)] := by
  induction l with
  | nil => rfl
  | cons e rest ih =>
    obtain ⟨k', x'⟩ := e
    have hlt : k' < k := h _ List.mem_cons_self
    rw [insertRaw, if_neg (not_lt.mpr hlt.le), if_neg (ne_of_gt hlt),
      ih fun e he => h e (List.mem_cons_of_mem _ he), List.cons_append]

/-- Keys strictly increase along the list. -/
def KeysSorted [LT κ] (l : List (κ × ν)) : Prop :=
  l.Pairwise (fun a b => a.1 < b.1)

section Lookup

variable [DecidableEq κ]

@[simp] theorem lookup_nil (k : κ) : lookup k ([] : List (κ × ν)) = none := rfl

theorem lookup_cons (k k' : κ) (x : ν) (rest : List (κ × ν)) :
    lookup k ((k', x) :: rest) = if k' = k then some x else lookup k rest := rfl

theorem lookup_eq_none_of_forall {k : κ} {l : List (κ × ν)} (h : ∀ e ∈ l, e.1 ≠ k) :
    lookup k l = none := by
  induction l with
  | nil => rfl
  | cons e rest ih =>
    obtain ⟨k', x⟩ := e
    rw [lookup_cons, if_neg (h _ List.mem_cons_self)]
    exact ih fun e he => h e (List.mem_cons_of_mem _ he)

theorem lookup_append (q : κ) (l₁ l₂ : List (κ × ν)) :
    lookup q (l₁ ++ l₂) = (lookup q l₁).or (lookup q l₂) := by
  induction l₁ with
  | nil => rfl
  | cons e rest ih =>
    obtain ⟨k, x⟩ := e
    rw [List.cons_append, lookup_cons, lookup_cons, ih]
    split_ifs <;> rfl

theorem lookup_map_snd {β : Type*} (q : κ) (g : ν → β) (l : List (κ × ν)) :
    lookup q (l.map fun e => (e.1, g e.2)) = (lookup q l).map g := by
  induction l with
  | nil => rfl
  | cons e rest ih =>
    obtain ⟨k, x⟩ := e
    rw [List.map_cons, lookup_cons, lookup_cons, ih]
    split_ifs <;> rfl

/-- With distinct keys, the entries are exactly the pairs that `lookup` reads. -/
theorem lookup_eq_some_iff_of_nodup {l : List (κ × ν)} (h : (l.map Prod.fst).Nodup) (k : κ)
    (x : ν) : lookup k l = some x ↔ (k, x) ∈ l := by
  induction l with
  | nil => simp
  | cons e rest ih =>
    obtain ⟨k', x'⟩ := e
    rw [List.map_cons, List.nodup_cons] at h
    rw [lookup_cons, List.mem_cons]
    by_cases hk : k' = k
    · subst hk
      rw [if_pos rfl, Option.some_inj]
      -- `k'` has no other entry
      have hnot : (k', x) ∉ rest := fun hm => h.1 (List.mem_map.mpr ⟨_, hm, rfl⟩)
      constructor
      · rintro rfl
        exact .inl rfl
      · rintro (hm | hm)
        · exact (Prod.mk.inj hm).2.symm
        · exact absurd hm hnot
    · rw [if_neg hk, ih h.2]
      constructor
      · exact .inr
      · rintro (hm | hm)
        · exact absurd (Prod.mk.inj hm).1 (Ne.symm hk)
        · exact hm

/-- With distinct keys, the order of the entries does not matter to a read. -/
theorem lookup_reverse {l : List (κ × ν)} (h : (l.map Prod.fst).Nodup) (q : κ) :
    lookup q l.reverse = lookup q l := by
  induction l with
  | nil => rfl
  | cons e rest ih =>
    obtain ⟨k, x⟩ := e
    rw [List.map_cons, List.nodup_cons] at h
    obtain ⟨hk, hrest⟩ := h
    rw [List.reverse_cons, lookup_append, ih hrest, lookup_cons, lookup_cons, lookup_nil]
    by_cases hkq : k = q
    · -- `k` does not occur again, so the rest has no entry for it
      subst hkq
      have hnone : lookup k rest = none := by
        apply lookup_eq_none_of_forall
        intro e he hek
        have hmem : e.1 ∈ rest.map Prod.fst := List.mem_map_of_mem he
        exact hk (hek ▸ hmem)
      rw [hnone]
      simp
    · rw [if_neg hkq, if_neg hkq, Option.or_none]

section MapKeys

variable {κ' : Type*} {β : Type*} [DecidableEq κ']

/-- Renaming the keys by an injective function renames the reads. -/
theorem lookup_map_of_injective {h : κ → κ'} (hinj : Function.Injective h) (g : ν → β)
    (l : List (κ × ν)) (k : κ) :
    lookup (h k) (l.map fun e => (h e.1, g e.2)) = (lookup k l).map g := by
  induction l with
  | nil => rfl
  | cons e rest ih =>
    obtain ⟨k', x⟩ := e
    rw [List.map_cons, lookup_cons, lookup_cons, ih]
    by_cases hk : k' = k
    · rw [if_pos (congrArg h hk), if_pos hk]
      rfl
    · rw [if_neg (fun heq => hk (hinj heq)), if_neg hk]

omit [DecidableEq κ] in
/-- A key outside the range of the renaming reads nothing. -/
theorem lookup_map_of_forall_ne {h : κ → κ'} {q : κ'} (hq : ∀ k, h k ≠ q) (g : ν → β)
    (l : List (κ × ν)) : lookup q (l.map fun e => (h e.1, g e.2)) = none :=
  lookup_eq_none_of_forall fun (e : κ' × β) he => by
    obtain ⟨e', -, rfl⟩ := List.mem_map.mp he
    exact hq e'.1

end MapKeys

end Lookup

section Raw

variable [LinearOrder κ]

/-- **Reading after an insertion**, for any list. -/
theorem lookup_insertRaw (k q : κ) (x : ν) (l : List (κ × ν)) :
    lookup q (insertRaw k x l) = if q = k then some x else lookup q l := by
  induction l with
  | nil => simp [insertRaw, lookup, eq_comm]
  | cons e rest ih =>
    obtain ⟨k', x'⟩ := e
    -- the new entry lands in front of `k'`, in its place, or further on
    by_cases hq : q = k
    · subst hq
      simp only [insertRaw]
      split_ifs with hlt heq
      · simp [lookup]
      · simp [lookup]
      · rw [lookup_cons, if_neg (Ne.symm heq), ih, if_pos rfl]
    · rw [if_neg hq]
      simp only [insertRaw]
      split_ifs with hlt heq
      · rw [lookup_cons, if_neg (Ne.symm hq)]
      · subst heq
        rw [lookup_cons, lookup_cons, if_neg (Ne.symm hq), if_neg (Ne.symm hq)]
      · rw [lookup_cons, lookup_cons, ih, if_neg hq]

/-- Inserting a key that the list does not read adds one entry. -/
theorem length_insertRaw_of_lookup_eq_none {k : κ} (x : ν) {l : List (κ × ν)}
    (h : lookup k l = none) : (insertRaw k x l).length = l.length + 1 := by
  induction l with
  | nil => rfl
  | cons e rest ih =>
    obtain ⟨k', x'⟩ := e
    rw [lookup_cons] at h
    split_ifs at h with hk
    simp only [insertRaw]
    split_ifs with hlt heq
    · rfl
    · exact absurd heq.symm hk
    · rw [List.length_cons, List.length_cons, ih h]

theorem mem_insertRaw {k : κ} {x : ν} {l : List (κ × ν)} {e : κ × ν}
    (h : e ∈ insertRaw k x l) : e = (k, x) ∨ e ∈ l := by
  induction l with
  | nil => simpa [insertRaw] using h
  | cons e' rest ih =>
    obtain ⟨k', x'⟩ := e'
    simp only [insertRaw] at h
    split_ifs at h with hlt heq
    · simpa using h
    · rcases List.mem_cons.mp h with h | h
      · exact Or.inl h
      · exact Or.inr (List.mem_cons_of_mem _ h)
    · rcases List.mem_cons.mp h with h | h
      · exact Or.inr (h ▸ List.mem_cons_self)
      · rcases ih h with h | h
        · exact Or.inl h
        · exact Or.inr (List.mem_cons_of_mem _ h)

theorem keysSorted_cons {e : κ × ν} {l : List (κ × ν)} :
    KeysSorted (e :: l) ↔ (∀ e' ∈ l, e.1 < e'.1) ∧ KeysSorted l :=
  List.pairwise_cons

/-- In a sorted list, every key is at most the last one. -/
theorem KeysSorted.le_of_getLast? {l : List (κ × ν)} (h : KeysSorted l)
    {e x : κ × ν} (he : e ∈ l) (hx : l.getLast? = some x) : e.1 ≤ x.1 := by
  obtain ⟨l', rfl⟩ := List.getLast?_eq_some_iff.mp hx
  rcases List.mem_append.mp he with he | he
  · exact (List.pairwise_append.mp h).2.2 e he x List.mem_cons_self |>.le
  · rw [List.mem_singleton.mp he]

theorem keysSorted_insertRaw {l : List (κ × ν)} (h : KeysSorted l) (k : κ) (x : ν) :
    KeysSorted (insertRaw k x l) := by
  induction l with
  | nil => exact List.pairwise_singleton _ _
  | cons e rest ih =>
    obtain ⟨k', x'⟩ := e
    obtain ⟨hlt, hrest⟩ := keysSorted_cons.mp h
    simp only [insertRaw]
    split_ifs with hk heq
    · refine keysSorted_cons.mpr ⟨fun e he => ?_, h⟩
      rcases List.mem_cons.mp he with rfl | he
      · exact hk
      · exact lt_trans hk (hlt e he)
    · subst heq
      exact keysSorted_cons.mpr ⟨hlt, hrest⟩
    · have hgt : k' < k := lt_of_le_of_ne (not_lt.mp hk) (Ne.symm heq)
      refine keysSorted_cons.mpr ⟨fun e he => ?_, ih hrest⟩
      rcases mem_insertRaw he with rfl | he
      · exact hgt
      · exact hlt e he

/-- The keys of a sorted list are distinct. -/
theorem KeysSorted.nodup_keys {l : List (κ × ν)} (h : KeysSorted l) : (l.map Prod.fst).Nodup := by
  rw [List.nodup_iff_pairwise_ne]
  exact (h.map Prod.fst fun _ _ h => h).imp ne_of_lt

/-- In a sorted list, the entries are exactly the pairs that `lookup` reads. -/
theorem KeysSorted.lookup_eq_some_iff {l : List (κ × ν)} (h : KeysSorted l) (k : κ)
    (x : ν) : lookup k l = some x ↔ (k, x) ∈ l := by
  induction l with
  | nil => simp
  | cons e rest ih =>
    obtain ⟨k', x'⟩ := e
    obtain ⟨hlt, hrest⟩ := keysSorted_cons.mp h
    rw [lookup_cons]
    by_cases hk : k' = k
    · subst hk
      rw [if_pos rfl, Option.some_inj]
      constructor
      · rintro rfl
        exact List.mem_cons_self
      · intro hm
        rcases List.mem_cons.mp hm with hm | hm
        · exact (Prod.mk.inj hm).2.symm
        · exact absurd (hlt _ hm) (lt_irrefl _)
    · rw [if_neg hk, ih hrest]
      constructor
      · exact List.mem_cons_of_mem _
      · intro hm
        rcases List.mem_cons.mp hm with hm | hm
        · exact absurd (Prod.mk.inj hm).1 (Ne.symm hk)
        · exact hm

theorem KeysSorted.lookup_filter {l : List (κ × ν)} (h : KeysSorted l) (p : κ × ν → Bool)
    (k : κ) : lookup k (l.filter p) = (lookup k l).filter (fun x => p (k, x)) := by
  -- an entry of `k` kept by the filter is the entry that `lookup` reads
  have hread : ∀ e ∈ l.filter p, e.1 = k → lookup k l = some e.2 ∧ p (k, e.2) := by
    rintro ⟨k1, x1⟩ he hek
    simp only at hek
    subst hek
    obtain ⟨hel, hpe⟩ := List.mem_filter.mp he
    exact ⟨(h.lookup_eq_some_iff k1 x1).mpr hel, hpe⟩
  cases hx : lookup k l with
  | none =>
    apply lookup_eq_none_of_forall
    intro e he hek
    obtain ⟨hsome, -⟩ := hread e he hek
    rw [hx] at hsome
    cases hsome
  | some x =>
    have hs : KeysSorted (l.filter p) := List.Pairwise.filter p h
    have hmem : (k, x) ∈ l := (h.lookup_eq_some_iff k x).mp hx
    by_cases hp : p (k, x)
    · rw [Option.filter_some, if_pos hp]
      exact (hs.lookup_eq_some_iff k x).mpr (List.mem_filter.mpr ⟨hmem, hp⟩)
    · rw [Option.filter_some, if_neg hp]
      apply lookup_eq_none_of_forall
      intro e he hek
      obtain ⟨hsome, hpe⟩ := hread e he hek
      rw [hx, Option.some_inj] at hsome
      exact hp (hsome ▸ hpe)

/-- In a sorted list, skipping the keys below `lo` keeps the entries from `lo`
on. -/
theorem KeysSorted.mem_dropWhile {l : List (κ × ν)} (h : KeysSorted l) (lo : κ) (e : κ × ν) :
    e ∈ l.dropWhile (fun e => decide (e.1 < lo)) ↔ e ∈ l ∧ lo ≤ e.1 := by
  induction l with
  | nil => simp
  | cons a rest ih =>
    obtain ⟨hhead, hrest⟩ := keysSorted_cons.mp h
    rw [List.dropWhile_cons]
    by_cases ha : a.1 < lo
    · -- `a` is skipped, and it is not an entry from `lo` on
      rw [if_pos (decide_eq_true ha), ih hrest, List.mem_cons]
      constructor
      · rintro ⟨he, hle⟩
        exact ⟨Or.inr he, hle⟩
      · rintro ⟨rfl | he, hle⟩
        · exact absurd ha (not_lt.mpr hle)
        · exact ⟨he, hle⟩
    · -- every key from `a` on is at least `lo`
      rw [if_neg (by simpa using ha)]
      constructor
      · intro he
        refine ⟨he, ?_⟩
        rcases List.mem_cons.mp he with rfl | he
        · exact not_lt.mp ha
        · exact le_trans (not_lt.mp ha) (hhead e he).le
      · exact fun ⟨he, _⟩ => he

/-- In a sorted list, taking the keys up to `hi` keeps exactly those entries. -/
theorem KeysSorted.mem_takeWhile {l : List (κ × ν)} (h : KeysSorted l) (hi : κ) (e : κ × ν) :
    e ∈ l.takeWhile (fun e => decide (e.1 ≤ hi)) ↔ e ∈ l ∧ e.1 ≤ hi := by
  induction l with
  | nil => simp
  | cons a rest ih =>
    obtain ⟨hhead, hrest⟩ := keysSorted_cons.mp h
    rw [List.takeWhile_cons]
    by_cases ha : a.1 ≤ hi
    · rw [if_pos (decide_eq_true ha), List.mem_cons, ih hrest, List.mem_cons]
      constructor
      · rintro (rfl | ⟨he, hle⟩)
        · exact ⟨Or.inl rfl, ha⟩
        · exact ⟨Or.inr he, hle⟩
      · rintro ⟨rfl | he, hle⟩
        · exact Or.inl rfl
        · exact Or.inr ⟨he, hle⟩
    · -- the scan stops at `a`, and every later key is above `hi` too
      rw [if_neg (by simpa using ha)]
      simp only [List.not_mem_nil, false_iff, not_and, not_le]
      intro he
      rcases List.mem_cons.mp he with rfl | he
      · exact not_le.mp ha
      · exact lt_trans (not_le.mp ha) (hhead e he)

/-- In a sorted list whose keys are all at or above a key `lo` with
property `P`, where `P` holds on intervals, taking the entries while `P`
holds keeps exactly the entries with `P`: the first entry without `P` is
above every key with it. -/
theorem KeysSorted.mem_takeWhile_of_interval {l : List (κ × ν)} (h : KeysSorted l) {P : κ → Bool}
    (hP : ∀ a b c, P a = true → P c = true → a ≤ b → b ≤ c → P b = true) {lo : κ}
    (hlo : P lo = true) (hge : ∀ e ∈ l, lo ≤ e.1) (e : κ × ν) :
    e ∈ l.takeWhile (fun e => P e.1) ↔ e ∈ l ∧ P e.1 = true := by
  induction l with
  | nil => simp
  | cons a rest ih =>
    obtain ⟨hhead, hrest⟩ := keysSorted_cons.mp h
    have ih' := ih hrest fun e he => hge e (List.mem_cons_of_mem _ he)
    rw [List.takeWhile_cons]
    by_cases ha : P a.1 = true
    · rw [if_pos ha, List.mem_cons, ih', List.mem_cons]
      constructor
      · rintro (rfl | ⟨he, hPe⟩)
        · exact ⟨Or.inl rfl, ha⟩
        · exact ⟨Or.inr he, hPe⟩
      · rintro ⟨rfl | he, hPe⟩
        · exact Or.inl rfl
        · exact Or.inr ⟨he, hPe⟩
    · -- an entry after `a` with `P` would put `a` between two keys with `P`
      rw [if_neg ha]
      simp only [List.not_mem_nil, false_iff, not_and]
      intro he hPe
      rcases List.mem_cons.mp he with rfl | he
      · exact ha hPe
      · exact ha (hP lo a.1 e.1 hlo hPe (hge a List.mem_cons_self) (hhead e he).le)

end Raw

/-- `std::ops::Bound`: one end of a range. -/
inductive Bound (α : Type u) where
  | included (a : α)
  | excluded (a : α)
  | unbounded
  deriving DecidableEq, Repr

namespace Bound

variable {α : Type u} [LinearOrder α]

/-- Whether `x` is not below the start bound. -/
def startContains : Bound α → α → Bool
  | included a, x => decide (a ≤ x)
  | excluded a, x => decide (a < x)
  | unbounded, _ => true

/-- Whether `x` is not above the end bound. -/
def endContains : Bound α → α → Bool
  | included b, x => decide (x ≤ b)
  | excluded b, x => decide (x < b)
  | unbounded, _ => true

/-- `RangeBounds::contains` of the range from `lo` to `hi`. -/
def contains (lo hi : Bound α) (x : α) : Bool := lo.startContains x && hi.endContains x

/-- Whether `BTreeMap::range` accepts the bounds: the start is not above the
end, and the ends are not both excluded at one point. -/
def rangeValid : Bound α → Bound α → Bool
  | excluded a, excluded b => decide (a < b)
  | included a, included b | included a, excluded b | excluded a, included b => decide (a ≤ b)
  | _, _ => true

/-- An end bound holds up to a point. -/
theorem endContains_of_le {hi : Bound α} {x y : α} (hy : hi.endContains y = true) (hxy : x ≤ y) :
    hi.endContains x = true := by
  cases hi with
  | included b => exact decide_eq_true (le_trans hxy (of_decide_eq_true hy))
  | excluded b => exact decide_eq_true (lt_of_le_of_lt hxy (of_decide_eq_true hy))
  | unbounded => rfl

end Bound


/-- An ordered map: entries with strictly increasing keys. -/
structure SortedMap (κ : Type u) (ν : Type v) [LinearOrder κ] where
  entries : List (κ × ν)
  sorted : KeysSorted entries

namespace SortedMap

variable [LinearOrder κ]

instance : EmptyCollection (SortedMap κ ν) := ⟨⟨[], List.Pairwise.nil⟩⟩

instance [DecidableEq ν] : DecidableEq (SortedMap κ ν) := fun m m' =>
  if h : m.entries = m'.entries then
    isTrue (by cases m; cases m'; cases h; rfl)
  else isFalse (fun he => h (he ▸ rfl))

/-- The value stored under `k`. -/
def get? (m : SortedMap κ ν) (k : κ) : Option ν := lookup k m.entries

/-- Whether `k` has an entry. -/
def contains (m : SortedMap κ ν) (k : κ) : Bool := (m.get? k).isSome

/-- Insert or replace the entry of `k`. -/
def insert (m : SortedMap κ ν) (k : κ) (x : ν) : SortedMap κ ν :=
  ⟨insertRaw k x m.entries, keysSorted_insertRaw m.sorted k x⟩

/-- Keep the entries satisfying `p` (`BTreeMap::retain`). -/
def filter (m : SortedMap κ ν) (p : κ → ν → Bool) : SortedMap κ ν :=
  ⟨m.entries.filter (fun e => p e.1 e.2), List.Pairwise.filter _ m.sorted⟩

/-- `BTreeMap::range`: the entries with keys in the range from `lo` to `hi`.
A map with entries panics on a range whose start is above its end, and on a
range with both ends excluded at one key; a map without any (no root node)
returns an empty range before it looks at the bounds. -/
def range (m : SortedMap κ ν) (lo hi : Bound κ) : Except String (SortedMap κ ν) :=
  if m.entries = [] then .ok (m.filter fun k _ => Bound.contains lo hi k)
  else
    match lo, hi with
    | .excluded a, .excluded b =>
      if b < a then .error "range start is greater than range end in BTreeMap"
      else if a = b then .error "range start and end are equal and excluded in BTreeMap"
      else .ok (m.filter fun k _ => Bound.contains lo hi k)
    | .included a, .included b | .included a, .excluded b | .excluded a, .included b =>
      if b < a then .error "range start is greater than range end in BTreeMap"
      else .ok (m.filter fun k _ => Bound.contains lo hi k)
    | _, _ => .ok (m.filter fun k _ => Bound.contains lo hi k)

/-- Remove the entry of `k`. -/
def erase (m : SortedMap κ ν) (k : κ) : SortedMap κ ν :=
  m.filter fun k' _ => k' ≠ k

/-- The number of entries. -/
def size (m : SortedMap κ ν) : Nat := m.entries.length

/-- The map with the one entry `k ↦ x`. -/
def singleton (k : κ) (x : ν) : SortedMap κ ν := (∅ : SortedMap κ ν).insert k x

/-- Rewrite every value in place, keys unchanged (`iter_mut`). -/
def mapVals (m : SortedMap κ ν) (f : κ → ν → ν) : SortedMap κ ν :=
  ⟨m.entries.map (fun e => (e.1, f e.1 e.2)), by
    have h := m.sorted
    unfold KeysSorted at h ⊢
    rw [List.pairwise_map]
    exact h⟩

/-- Remove the entry with the greatest key, if any (`BTreeMap::pop_last`). -/
def popLast (m : SortedMap κ ν) : Option ((κ × ν) × SortedMap κ ν) :=
  match m.entries.getLast? with
  | none => none
  | some e => some (e, ⟨m.entries.dropLast, m.sorted.sublist (List.dropLast_sublist _)⟩)

/-- Write an optional value: `some x` stores `x` under `k`, `none` removes
`k` (a `put` or a `delete` of a write batch). -/
def write (m : SortedMap κ ν) (k : κ) : Option ν → SortedMap κ ν
  | some x => m.insert k x
  | none => m.erase k

/-- Write the entries of a batch in turn. -/
def writeAll (m : SortedMap κ ν) (batch : List (κ × Option ν)) : SortedMap κ ν :=
  batch.foldl (fun acc e => acc.write e.1 e.2) m

/-- Insert every entry of `other`, replacing the entries of the same keys
(`BTreeMap::extend`). -/
def extend (m other : SortedMap κ ν) : SortedMap κ ν :=
  other.entries.foldl (fun acc e => acc.insert e.1 e.2) m

/-- Merge `other` into `m` entry by entry: an incoming entry is combined by
`f` with the entry already there, or inserted when there is none (the
`Entry::Occupied` / `Entry::Vacant` loop of the change sets' `apply`). -/
def mergeWith (f : ν → ν → ν) (m other : SortedMap κ ν) : SortedMap κ ν :=
  other.entries.foldl (fun acc e =>
    match acc.get? e.1 with
    | some cur => acc.insert e.1 (f cur e.2)
    | none => acc.insert e.1 e.2) m

/-- Drop the `n` entries with the smallest keys. -/
def dropFirst (m : SortedMap κ ν) (n : ℕ) : SortedMap κ ν :=
  ⟨m.entries.drop n, m.sorted.sublist (List.drop_sublist _ _)⟩

/-- The entries from the first key not below `start`, in key order: a forward
iterator positioned at `start`. -/
def iterFrom (m : SortedMap κ ν) (start : κ) : List (κ × ν) :=
  m.entries.dropWhile fun e => e.1 < start

/-- A read is a `lookup` under any decidable equality of the keys, not only
the one the order gives. -/
theorem get?_eq_lookup [inst : DecidableEq κ] (m : SortedMap κ ν) (k : κ) :
    m.get? k = @lookup κ ν inst k m.entries := by
  unfold get?
  congr

/-- Reading a map given by its first entry and the rest. -/
theorem get?_cons (k : κ) (x : ν) (l : List (κ × ν)) (h : KeysSorted ((k, x) :: l)) (q : κ) :
    (⟨(k, x) :: l, h⟩ : SortedMap κ ν).get? q =
      if k = q then some x else (⟨l, h.of_cons⟩ : SortedMap κ ν).get? q := rfl

/-- A key below every key of the map reads nothing. -/
theorem get?_of_forall_lt {l : List (κ × ν)} (h : KeysSorted l) {k : κ} (hlt : ∀ e ∈ l, k < e.1) :
    (⟨l, h⟩ : SortedMap κ ν).get? k = none :=
  lookup_eq_none_of_forall fun e he => (hlt e he).ne'

@[simp] theorem get?_empty (k : κ) : (∅ : SortedMap κ ν).get? k = none := rfl

@[simp] theorem get?_insert (m : SortedMap κ ν) (k q : κ) (x : ν) :
    (m.insert k x).get? q = if q = k then some x else m.get? q :=
  lookup_insertRaw k q x m.entries

/-- Inserting a key without an entry adds one entry. -/
theorem size_insert_of_get?_eq_none (m : SortedMap κ ν) {k : κ} (x : ν) (h : m.get? k = none) :
    (m.insert k x).size = m.size + 1 :=
  length_insertRaw_of_lookup_eq_none x h

@[simp] theorem get?_singleton (k q : κ) (x : ν) :
    (singleton k x).get? q = if q = k then some x else none := by
  rw [singleton, get?_insert, get?_empty]

@[simp] theorem get?_filter (m : SortedMap κ ν) (p : κ → ν → Bool) (q : κ) :
    (m.filter p).get? q = (m.get? q).filter (p q) :=
  m.sorted.lookup_filter _ q

@[simp] theorem get?_erase (m : SortedMap κ ν) (k q : κ) :
    (m.erase k).get? q = if q = k then none else m.get? q := by
  rw [erase, get?_filter]
  by_cases hq : q = k
  · subst hq
    cases m.get? q <;> simp
  · cases m.get? q <;> simp [hq]

@[simp] theorem get?_write (m : SortedMap κ ν) (k q : κ) (v : Option ν) :
    (m.write k v).get? q = if q = k then v else m.get? q := by
  cases v with
  | some x => exact get?_insert m k q x
  | none => exact get?_erase m k q

/-- The keys of a sorted map are distinct. -/
theorem nodup_keys (m : SortedMap κ ν) : (m.entries.map Prod.fst).Nodup :=
  m.sorted.nodup_keys

/-- Reading after a batch: the last write of the key in the batch, or the
value before the batch when the batch does not write the key. -/
theorem get?_writeAll (m : SortedMap κ ν) (batch : List (κ × Option ν)) (q : κ) :
    (m.writeAll batch).get? q = (lookup q batch.reverse).getD (m.get? q) := by
  induction batch generalizing m with
  | nil => rfl
  | cons e rest ih =>
    obtain ⟨k, v⟩ := e
    rw [writeAll, List.foldl_cons, ← writeAll, ih, List.reverse_cons, lookup_append, get?_write,
      lookup_cons, lookup_nil]
    cases lookup q rest.reverse with
    | some w => rfl
    | none =>
      by_cases hq : q = k
      · subst hq
        simp
      · simp [hq, Ne.symm hq]

/-- Reading after writing the entries of another sorted map, each mapped to
a write by `g`. -/
theorem get?_writeAll_map {β : Type*} (m : SortedMap κ ν) (u : SortedMap κ β)
    (g : β → Option ν) (q : κ) :
    (m.writeAll (u.entries.map fun e => (e.1, g e.2))).get? q = ((u.get? q).map g).getD (m.get? q) := by
  have hnodup : ((u.entries.map fun e => (e.1, g e.2)).map Prod.fst).Nodup := by
    rw [List.map_map]
    exact u.nodup_keys
  rw [get?_writeAll, lookup_reverse hnodup, lookup_map_snd]
  rfl

/-- Inserts under other keys leave a key as it was. -/
theorem get?_foldl_insert_of_forall_ne {β : Type*} (m : SortedMap κ ν) {l : List β}
    (key : β → κ) (val : β → ν) {q : κ} (hne : ∀ e ∈ l, key e ≠ q) :
    (l.foldl (fun acc e => acc.insert (key e) (val e)) m).get? q = m.get? q := by
  induction l generalizing m with
  | nil => rfl
  | cons e rest ih =>
    rw [List.foldl_cons, ih _ fun e' he' => hne e' (List.mem_cons_of_mem _ he'), get?_insert,
      if_neg (Ne.symm (hne e List.mem_cons_self))]

/-- A fold of inserts in which only `e₀` has the key `q` leaves `val e₀`
under `q`. -/
theorem get?_foldl_insert_of_mem {β : Type*} (m : SortedMap κ ν) {l : List β} (key : β → κ)
    (val : β → ν) {q : κ} {e₀ : β} (he₀ : e₀ ∈ l) (hkey : ∀ e ∈ l, key e = q → e = e₀)
    (hq : key e₀ = q) :
    (l.foldl (fun acc e => acc.insert (key e) (val e)) m).get? q = some (val e₀) := by
  induction l generalizing m with
  | nil => cases he₀
  | cons e rest ih =>
    rw [List.foldl_cons]
    by_cases hrest : e₀ ∈ rest
    · exact ih _ hrest fun e' he' => hkey e' (List.mem_cons_of_mem _ he')
    · -- `e₀` is the head, and no later insert has its key
      have he : e = e₀ := by
        rcases List.mem_cons.mp he₀ with h | h
        · exact h.symm
        · exact absurd h hrest
      subst he
      have hne : ∀ e' ∈ rest, key e' ≠ q := fun e' he' hk =>
        hrest (hkey e' (List.mem_cons_of_mem _ he') hk ▸ he')
      rw [get?_foldl_insert_of_forall_ne _ _ _ hne, get?_insert, if_pos hq.symm]

/-- Inserting a key above every key appends its entry. -/
theorem entries_insert_of_forall_lt (m : SortedMap κ ν) {k : κ} (x : ν)
    (h : ∀ e ∈ m.entries, e.1 < k) : (m.insert k x).entries = m.entries ++ [(k, x)] :=
  insertRaw_of_forall_lt x h

/-- Erasing the keys of a list in turn: the keys of the list read nothing,
the others are untouched. -/
@[simp] theorem get?_mapVals (m : SortedMap κ ν) (f : κ → ν → ν) (q : κ) :
    (m.mapVals f).get? q = (m.get? q).map (f q) := by
  show lookup q (m.entries.map fun e => (e.1, f e.1 e.2)) = (lookup q m.entries).map (f q)
  induction m.entries with
  | nil => rfl
  | cons e rest ih =>
    obtain ⟨k, x⟩ := e
    rw [List.map_cons, lookup_cons, lookup_cons]
    by_cases hk : k = q
    · subst hk
      rw [if_pos rfl, if_pos rfl]
      rfl
    · rw [if_neg hk, if_neg hk, ih]

theorem get?_foldl_erase (m : SortedMap κ ν) (l : List κ) (q : κ) :
    (l.foldl (fun acc k => acc.erase k) m).get? q = if q ∈ l then none else m.get? q := by
  induction l generalizing m with
  | nil => simp
  | cons k rest ih =>
    rw [List.foldl_cons, ih, get?_erase]
    by_cases hq : q = k
    · simp [hq]
    · by_cases hr : q ∈ rest <;> simp [hq, hr]

/-- A loop of insertions is a batch of writes. -/
theorem foldl_insert_eq_writeAll {β : Type*} (m : SortedMap κ ν) (l : List β) (key : β → κ)
    (val : β → ν) :
    l.foldl (fun acc e => acc.insert (key e) (val e)) m =
      m.writeAll (l.map fun e => (key e, some (val e))) := by
  rw [writeAll, List.foldl_map]
  rfl

/-- Reading after writing a batch that is itself a sorted map. -/
theorem get?_writeAll_entries (m : SortedMap κ ν) (u : SortedMap κ (Option ν)) (q : κ) :
    (m.writeAll u.entries).get? q = (u.get? q).getD (m.get? q) := by
  have h := get?_writeAll_map m u id q
  simpa using h

/-- Reading after writing the entries of another sorted map under renamed
keys: `h` renames injectively and `g` turns each value into a write. -/
theorem get?_writeAll_mapKeys {κ' β : Type*} [LinearOrder κ'] (m : SortedMap κ' ν)
    (u : SortedMap κ β) {h : κ → κ'} (hinj : Function.Injective h) (g : β → Option ν) (k : κ) :
    (m.writeAll (u.entries.map fun e => (h e.1, g e.2))).get? (h k) =
      ((u.get? k).map g).getD (m.get? (h k)) := by
  have hnodup : ((u.entries.map fun e => (h e.1, g e.2)).map Prod.fst).Nodup := by
    have hmapped := List.Nodup.map hinj u.nodup_keys
    rw [List.map_map] at hmapped ⊢
    exact hmapped
  rw [get?_writeAll, lookup_reverse hnodup, lookup_map_of_injective hinj]
  rfl

/-- A key outside the renamed keys keeps its value. -/
theorem get?_writeAll_mapKeys_of_forall_ne {κ' β : Type*} [LinearOrder κ'] (m : SortedMap κ' ν)
    (u : SortedMap κ β) {h : κ → κ'} (g : β → Option ν) {q : κ'} (hq : ∀ k, h k ≠ q) :
    (m.writeAll (u.entries.map fun e => (h e.1, g e.2))).get? q = m.get? q := by
  rw [get?_writeAll, ← List.map_reverse, lookup_map_of_forall_ne hq]
  rfl

/-- Reading after a merge: the incoming entry combined with the existing one
by `f`, the incoming one alone, or the existing one. -/
theorem get?_mergeWith (f : ν → ν → ν) (m other : SortedMap κ ν) (q : κ) :
    (m.mergeWith f other).get? q = Action.optComp f (m.get? q) (other.get? q) := by
  obtain ⟨l, hl⟩ := other
  unfold mergeWith
  change (List.foldl _ m l).get? q = Action.optComp f (m.get? q) (lookup q l)
  induction l generalizing m with
  | nil =>
    rw [List.foldl_nil]
    cases m.get? q <;> rfl
  | cons e rest ih =>
    obtain ⟨k, x⟩ := e
    obtain ⟨hhead, hrest⟩ := keysSorted_cons.mp hl
    rw [List.foldl_cons, ih _ hrest, lookup_cons]
    -- the merge step at `k`, read at `q`
    have hstep : (match m.get? k with
        | some cur => m.insert k (f cur x)
        | none => m.insert k x).get? q =
        if q = k then Action.optComp f (m.get? k) (some x) else m.get? q := by
      cases m.get? k <;> simp
    rw [hstep]
    by_cases hq : k = q
    · subst hq
      have hnone : lookup k rest = none :=
        lookup_eq_none_of_forall fun e he => (hhead e he).ne'
      rw [if_pos rfl, if_pos rfl, hnone]
      cases m.get? k <;> rfl
    · rw [if_neg (Ne.symm hq), if_neg hq]

theorem extend_eq_mergeWith (m other : SortedMap κ ν) :
    m.extend other = m.mergeWith (fun _ new => new) other := by
  unfold extend mergeWith
  apply List.foldl_ext
  intro acc e _
  cases acc.get? e.1 <;> rfl

/-- Reading after `extend`: the incoming entry wins. -/
theorem get?_extend (m other : SortedMap κ ν) (q : κ) :
    (m.extend other).get? q = Action.optComp (fun _ new => new) (m.get? q) (other.get? q) := by
  rw [extend_eq_mergeWith, get?_mergeWith]

theorem contains_extend (m other : SortedMap κ ν) (q : κ) :
    (m.extend other).contains q = (m.contains q || other.contains q) := by
  rw [contains, contains, contains, get?_extend]
  cases m.get? q <;> cases other.get? q <;> rfl

@[simp] theorem contains_insert (m : SortedMap κ ν) (k q : κ) (x : ν) :
    (m.insert k x).contains q = (decide (q = k) || m.contains q) := by
  rw [contains, contains, get?_insert]
  by_cases hq : q = k <;> simp [hq]

theorem mem_entries_iff (m : SortedMap κ ν) (k : κ) (x : ν) :
    (k, x) ∈ m.entries ↔ m.get? k = some x :=
  (m.sorted.lookup_eq_some_iff k x).symm

/-- A forward scan from `lo` that stops after `hi` reads the entries of the
keys in `[lo, hi]`. -/
theorem lookup_takeWhile_iterFrom (m : SortedMap κ ν) (lo hi q : κ) :
    lookup q ((m.iterFrom lo).takeWhile fun e => decide (e.1 ≤ hi)) =
      if lo ≤ q ∧ q ≤ hi then m.get? q else none := by
  have hdrop : KeysSorted (m.iterFrom lo) := m.sorted.sublist (List.dropWhile_suffix _).sublist
  have htake : KeysSorted ((m.iterFrom lo).takeWhile fun e => decide (e.1 ≤ hi)) :=
    hdrop.sublist (List.takeWhile_prefix _).sublist
  apply Option.ext
  intro x
  rw [htake.lookup_eq_some_iff, hdrop.mem_takeWhile, iterFrom, m.sorted.mem_dropWhile,
    mem_entries_iff]
  split_ifs with hq
  · exact ⟨fun ⟨⟨hx, _⟩, _⟩ => hx, fun hx => ⟨⟨hx, hq.1⟩, hq.2⟩⟩
  · simp only [iff_false]
    rintro ⟨⟨-, hlo⟩, hhi⟩
    exact hq ⟨hlo, hhi⟩

/-- Writing `x` at every key that a scan of `[lo, hi]` visits. -/
theorem get?_writeAll_scan {ν' : Type*} (m : SortedMap κ ν') (cf : SortedMap κ ν) (lo hi q : κ)
    (x : Option ν') :
    (m.writeAll (((cf.iterFrom lo).takeWhile fun e => decide (e.1 ≤ hi)).map
        fun e => (e.1, x))).get? q =
      ((if lo ≤ q ∧ q ≤ hi then cf.get? q else none).map fun _ => x).getD (m.get? q) := by
  have hsorted : KeysSorted ((cf.iterFrom lo).takeWhile fun e => decide (e.1 ≤ hi)) :=
    cf.sorted.sublist ((List.takeWhile_prefix _).sublist.trans (List.dropWhile_suffix _).sublist)
  have hnodup : ((((cf.iterFrom lo).takeWhile fun e => decide (e.1 ≤ hi)).map
      fun e => (e.1, x)).map Prod.fst).Nodup := by
    rw [List.map_map]
    exact hsorted.nodup_keys
  rw [get?_writeAll, lookup_reverse hnodup, ← lookup_takeWhile_iterFrom]
  congr 1
  exact lookup_map_snd q (fun _ => x) _

/-- `range` panics only on a map with entries and bounds it does not accept. -/
theorem range_eq_ok_iff (m : SortedMap κ ν) (lo hi : Bound κ) :
    (∃ r, m.range lo hi = .ok r) ↔ m.entries = [] ∨ Bound.rangeValid lo hi = true := by
  unfold range
  split_ifs with hempty
  · exact ⟨fun _ => .inl hempty, fun _ => ⟨_, rfl⟩⟩
  · simp only [hempty, false_or]
    -- one case per shape of the bounds, as `range` matches them
    cases lo <;> cases hi <;> simp only [Bound.rangeValid, decide_eq_true_eq] <;>
      (try split_ifs) <;> grind

/-- What `range` returns when it does not panic: the entries in the range. -/
theorem range_eq_ok_filter {m r : SortedMap κ ν} {lo hi : Bound κ} (h : m.range lo hi = .ok r) :
    r = m.filter fun k _ => Bound.contains lo hi k := by
  unfold range at h
  -- every branch that does not panic returns the filter
  split_ifs at h with hempty
  · exact (Except.ok.inj h).symm
  · split at h <;> (try split_ifs at h) <;> exact (Except.ok.inj h).symm

/-- Bounds that `BTreeMap::range` accepts give the entries in the range. -/
theorem range_of_rangeValid (m : SortedMap κ ν) {lo hi : Bound κ}
    (hvalid : Bound.rangeValid lo hi = true) :
    m.range lo hi = .ok (m.filter fun k _ => Bound.contains lo hi k) := by
  obtain ⟨r, hr⟩ := (m.range_eq_ok_iff lo hi).mpr (.inr hvalid)
  rw [hr, range_eq_ok_filter hr]

theorem get?_range {m r : SortedMap κ ν} {lo hi : Bound κ} (h : m.range lo hi = .ok r) (q : κ) :
    r.get? q = if Bound.contains lo hi q then m.get? q else none := by
  rw [range_eq_ok_filter h, get?_filter]
  cases m.get? q <;> by_cases hq : Bound.contains lo hi q = true <;> simp [hq]

/-- The entries a forward scan from `lo` visits while their keys have a
property `P` that holds on intervals and at `lo`: exactly the entries from
`lo` on with `P`. -/
theorem mem_takeWhile_iterFrom (m : SortedMap κ ν) {P : κ → Bool}
    (hP : ∀ a b c, P a = true → P c = true → a ≤ b → b ≤ c → P b = true) {lo : κ}
    (hlo : P lo = true) (e : κ × ν) :
    e ∈ (m.iterFrom lo).takeWhile (fun e => P e.1) ↔ e ∈ m.entries ∧ lo ≤ e.1 ∧ P e.1 = true := by
  have hsorted : KeysSorted (m.iterFrom lo) := m.sorted.sublist (List.dropWhile_suffix _).sublist
  have hge : ∀ e ∈ m.iterFrom lo, lo ≤ e.1 := fun e he => ((m.sorted.mem_dropWhile lo e).mp he).2
  rw [hsorted.mem_takeWhile_of_interval hP hlo hge, iterFrom, m.sorted.mem_dropWhile, and_assoc]

/-- A forward scan visits its entries in key order. -/
theorem keysSorted_takeWhile_iterFrom (m : SortedMap κ ν) (lo : κ) (p : κ × ν → Bool) :
    KeysSorted ((m.iterFrom lo).takeWhile p) :=
  m.sorted.sublist ((List.takeWhile_prefix _).sublist.trans (List.dropWhile_suffix _).sublist)

/-- A forward scan from `lo` while the keys have an interval property `P`
reads the entries of the keys from `lo` on with `P`, under any decidable
equality of the keys. -/
theorem lookup_takeWhile_iterFrom_of_interval [inst : DecidableEq κ] (m : SortedMap κ ν)
    {P : κ → Bool} (hP : ∀ a b c, P a = true → P c = true → a ≤ b → b ≤ c → P b = true)
    {lo : κ} (hlo : P lo = true) (q : κ) :
    @lookup κ ν inst q ((m.iterFrom lo).takeWhile fun e => P e.1) =
      if lo ≤ q ∧ P q = true then m.get? q else none := by
  have hnodup := (m.keysSorted_takeWhile_iterFrom lo fun e => P e.1).nodup_keys
  apply Option.ext
  intro x
  rw [lookup_eq_some_iff_of_nodup hnodup, m.mem_takeWhile_iterFrom hP hlo, mem_entries_iff]
  split_ifs with hq
  · exact ⟨fun ⟨hx, _⟩ => hx, fun hx => ⟨hx, hq⟩⟩
  · simp only [iff_false]
    rintro ⟨-, hle, hp⟩
    exact hq ⟨hle, hp⟩

/-- **Extensionality**: a sorted map is determined by its reads. -/
theorem ext {m m' : SortedMap κ ν} (h : ∀ k, m.get? k = m'.get? k) : m = m' := by
  have hmem : ∀ e, e ∈ m.entries ↔ e ∈ m'.entries := by
    rintro ⟨k, x⟩
    rw [mem_entries_iff, mem_entries_iff, h]
  have hirr : Std.Irrefl (fun a b : κ × ν => a.1 < b.1) := ⟨fun a => lt_irrefl a.1⟩
  have heq : m.entries = m'.entries := List.Pairwise.eq_of_mem_iff m.sorted m'.sorted hmem
  cases m
  cases m'
  cases heq
  rfl

/-- Inserting the entries of a map in order into the empty map rebuilds it
(`collect` of its iterator into a map). -/
theorem foldl_insert_entries (m : SortedMap κ ν) :
    m.entries.foldl (fun acc e => acc.insert e.1 e.2) ∅ = m := by
  refine ext fun q => ?_
  cases hq : m.get? q with
  | none =>
    -- no entry has the key `q`
    refine (get?_foldl_insert_of_forall_ne _ Prod.fst Prod.snd fun e he hkey => ?_).trans rfl
    rw [← hkey, (m.mem_entries_iff e.1 e.2).mp he] at hq
    cases hq
  | some x =>
    -- the entry `(q, x)` is the only one with the key `q`
    refine get?_foldl_insert_of_mem _ Prod.fst Prod.snd ((m.mem_entries_iff q x).mpr hq)
      (fun e he hkey => ?_) rfl
    have hget := (m.mem_entries_iff e.1 e.2).mp he
    rw [hkey, hq, Option.some_inj] at hget
    rw [← hkey, hget]


/-- The keys of the map. -/
def keys (m : SortedMap κ ν) : Finset κ := (m.entries.map Prod.fst).toFinset

theorem mem_keys (m : SortedMap κ ν) (k : κ) : k ∈ m.keys ↔ (m.get? k).isSome := by
  simp only [keys, List.mem_toFinset, List.mem_map]
  constructor
  · rintro ⟨⟨k', x⟩, he, rfl⟩
    rw [(m.mem_entries_iff k' x).mp he]
    rfl
  · intro hk
    obtain ⟨x, hx⟩ := Option.isSome_iff_exists.mp hk
    exact ⟨(k, x), (m.mem_entries_iff k x).mpr hx, rfl⟩

/-- A map has as many entries as keys. -/
theorem card_keys (m : SortedMap κ ν) : m.keys.card = m.size := by
  rw [keys, List.toFinset_card_of_nodup m.nodup_keys, List.length_map]
  rfl

/-- A map whose keys are all keys of another has no more entries. -/
theorem size_le_of_isSome {ν' : Type*} (m : SortedMap κ ν) (m' : SortedMap κ ν')
    (h : ∀ k, (m.get? k).isSome → (m'.get? k).isSome) : m.size ≤ m'.size := by
  rw [← card_keys, ← card_keys]
  apply Finset.card_le_card
  intro k hk
  rw [mem_keys] at hk ⊢
  exact h k hk

end SortedMap
