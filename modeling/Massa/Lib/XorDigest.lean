import Massa.Lib.SortedMap
import Mathlib.Data.LawfulXor.Basic

/-!
# XOR digests of ordered maps

A map can be fingerprinted incrementally by XOR-ing a hash of every entry:
`xorDigest f m` is the XOR of `f k x` over the entries `k ↦ x` of `m`.
Since XOR is its own inverse, writing a key changes the digest by XOR-ing out
the old entry's hash and XOR-ing in the new one (`xorDigest_write`), and a
whole batch, each of whose keys is read before the batch is applied, by the
XOR of those per-key changes (`xorDigest_writeAll`).  The digest depends on
the contents only, not on the order or batching of the writes that built it.

The values live in any type with a lawful XOR (`LawfulXor`), such as a bit
vector.
-/

variable {H : Type*} [XorOp H] [Zero H]

/-- The XOR of a list. -/
def xorSum (l : List H) : H := l.foldr (· ^^^ ·) 0

@[simp] theorem xorSum_nil : xorSum ([] : List H) = 0 := rfl

@[simp] theorem xorSum_cons (a : H) (l : List H) : xorSum (a :: l) = a ^^^ xorSum l := rfl

variable [LawfulXor H]

theorem xor_left_comm (a b c : H) : a ^^^ (b ^^^ c) = b ^^^ (a ^^^ c) := by
  rw [← LawfulXor.xor_assoc, LawfulXor.xor_comm a b, LawfulXor.xor_assoc]

/-- An accumulating XOR loop adds the XOR of what it visits. -/
theorem foldl_xor {α : Type*} (g : α → H) (l : List α) (a : H) :
    l.foldl (fun acc x => acc ^^^ g x) a = a ^^^ xorSum (l.map g) := by
  induction l generalizing a with
  | nil => simp
  | cons x l ih => rw [List.foldl_cons, ih, List.map_cons, xorSum_cons, LawfulXor.xor_assoc]

namespace SortedMap

variable {κ ν : Type*} [LinearOrder κ] (f : κ → ν → H)

/-- The XOR of `f k x` over the entries of `m`. -/
def xorDigest (m : SortedMap κ ν) : H := xorSum (m.entries.map fun e => f e.1 e.2)

/-- The change of the digest when the value of `k` goes from `old` to `new`
(`none` for no entry). -/
def xorDelta (k : κ) (old new : Option ν) : H := old.elim 0 (f k) ^^^ new.elim 0 (f k)

omit [LawfulXor H] in
@[simp] theorem xorDigest_empty : xorDigest f (∅ : SortedMap κ ν) = 0 := rfl

theorem xorDigest_insert (m : SortedMap κ ν) (k : κ) (x : ν) :
    xorDigest f (m.insert k x) = xorDigest f m ^^^ xorDelta f k (m.get? k) (some x) := by
  obtain ⟨l, hl⟩ := m
  simp only [xorDigest, insert, get?, xorDelta, Option.elim_some]
  induction l with
  | nil => simp [insertRaw]
  | cons e rest ih =>
    obtain ⟨k', x'⟩ := e
    obtain ⟨hhead, hrest⟩ := keysSorted_cons.mp hl
    rw [insertRaw, lookup_cons]
    rcases lt_trichotomy k k' with hlt | rfl | hgt
    · -- a new key below the head: no old entry, since every key is at least `k'`
      have hnone : lookup k rest = none :=
        lookup_eq_none_of_forall fun e he => (lt_trans hlt (hhead e he)).ne'
      simp only [if_pos hlt, if_neg hlt.ne', hnone, List.map_cons, xorSum_cons,
        Option.elim_none, zero_xor]
      simp only [LawfulXor.xor_comm]
    · -- the key of the head: its entry is replaced
      simp only [lt_irrefl, if_false, if_true, List.map_cons, xorSum_cons, Option.elim_some]
      simp only [LawfulXor.xor_assoc, LawfulXor.xor_comm, xor_left_comm, xor_cancel_left]
    · simp only [if_neg (not_lt.mpr hgt.le), if_neg hgt.ne', if_neg hgt.ne, List.map_cons,
        xorSum_cons, ih hrest]
      simp only [LawfulXor.xor_assoc, LawfulXor.xor_comm, xor_left_comm]

theorem xorDigest_erase (m : SortedMap κ ν) (k : κ) :
    xorDigest f (m.erase k) = xorDigest f m ^^^ xorDelta f k (m.get? k) none := by
  obtain ⟨l, hl⟩ := m
  simp only [xorDigest, erase, filter, get?, xorDelta, Option.elim_none, LawfulXor.xor_zero]
  induction l with
  | nil => simp
  | cons e rest ih =>
    obtain ⟨k', x'⟩ := e
    obtain ⟨hhead, hrest⟩ := keysSorted_cons.mp hl
    rw [lookup_cons]
    by_cases hk : k' = k
    · -- the head is the erased entry, and no later entry has its key
      subst hk
      have hkeep : rest.filter (fun e => decide (e.1 ≠ k')) = rest :=
        List.filter_eq_self.mpr fun e he => by simpa using (hhead e he).ne'
      simp only [List.filter_cons, ne_eq, not_true_eq_false, decide_false, Bool.false_eq_true,
        if_false, if_true, hkeep, List.map_cons, xorSum_cons, Option.elim_some]
      simp only [LawfulXor.xor_comm, xor_cancel_left]
    · simp only [List.filter_cons, ne_eq, hk, not_false_eq_true, decide_true, if_true,
        if_false, List.map_cons, xorSum_cons, ih hrest]
      simp only [LawfulXor.xor_comm, xor_left_comm]

/-- **Writing a key** changes the digest by the key's delta. -/
theorem xorDigest_write (m : SortedMap κ ν) (k : κ) (v : Option ν) :
    xorDigest f (m.write k v) = xorDigest f m ^^^ xorDelta f k (m.get? k) v := by
  cases v with
  | some x => exact xorDigest_insert f m k x
  | none => exact xorDigest_erase f m k

/-- **Writing a batch** whose keys are distinct changes the digest by the XOR
of the deltas, each computed against the map before the batch. -/
theorem xorDigest_writeAll (m : SortedMap κ ν) (batch : List (κ × Option ν))
    (hkeys : (batch.map Prod.fst).Nodup) :
    xorDigest f (m.writeAll batch) =
      xorDigest f m ^^^ xorSum (batch.map fun e => xorDelta f e.1 (m.get? e.1) e.2) := by
  induction batch generalizing m with
  | nil => simp [writeAll]
  | cons e rest ih =>
    obtain ⟨k, v⟩ := e
    rw [List.map_cons, List.nodup_cons] at hkeys
    obtain ⟨hk, hrest⟩ := hkeys
    -- the later keys differ from `k`, so they read the same before and after it
    have hsame : rest.map (fun e => xorDelta f e.1 ((m.write k v).get? e.1) e.2) =
        rest.map (fun e => xorDelta f e.1 (m.get? e.1) e.2) := by
      apply List.map_congr_left
      intro e he
      have hmem : e.1 ∈ rest.map Prod.fst := List.mem_map_of_mem he
      have hne : e.1 ≠ k := fun h => hk (h ▸ hmem)
      rw [get?_write, if_neg hne]
    rw [writeAll, List.foldl_cons, ← writeAll, ih _ hrest, hsame, xorDigest_write,
      List.map_cons, xorSum_cons, LawfulXor.xor_assoc]

end SortedMap
