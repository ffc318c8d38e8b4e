import Mathlib

/-!
# Parsers over lists, in the style of `nom`

A parser reads a prefix of its input and returns the value read with the
unread rest, or `none` where `nom` returns an error.  A parser reads back a
serializer on a set of values when, for each of them, it reads exactly the
symbols written and returns what follows untouched (`ReadsBack`): the
round-trip property of a binary format, stated so that formats compose by
concatenation.

`count` and `lengthCount` repeat a parser (`nom::multi::count` and
`nom::multi::length_count`); they read back the concatenation of the items
(`ReadsBack.count`, `ReadsBack.lengthCount`).
-/

namespace ListParser

variable {σ α : Type}

/-- `nom::multi::count`: `n` items in a row. -/
def count (item : List σ → Option (α × List σ)) : ℕ → List σ → Option (List α × List σ)
  | 0, input => some ([], input)
  | n + 1, input => do
    let (a, rest) ← item input
    let (as, rest) ← count item n rest
    pure (a :: as, rest)

/-- `nom::multi::length_count`: a count, then that many items. -/
def lengthCount (len : List σ → Option (ℕ × List σ)) (item : List σ → Option (α × List σ))
    (input : List σ) : Option (List α × List σ) := do
  let (n, rest) ← len input
  count item n rest

/-- `parse` reads back what `ser` writes for every value satisfying `P`,
whatever follows. -/
def ReadsBack (ser : α → List σ) (parse : List σ → Option (α × List σ)) (P : α → Prop) :
    Prop :=
  ∀ a, P a → ∀ rest, parse (ser a ++ rest) = some (a, rest)

section ReadsBack

variable {ser : α → List σ} {item : List σ → Option (α × List σ)} {P : α → Prop}

/-- **Items in a row.**  A parser that reads back each item reads back their
concatenation, as many times as there are items. -/
theorem ReadsBack.count (h : ReadsBack ser item P) {l : List α} (hl : ∀ a ∈ l, P a)
    (rest : List σ) : ListParser.count item l.length (l.flatMap ser ++ rest) = some (l, rest) := by
  induction l with
  | nil => rfl
  | cons a l ih =>
    have hhead := h a (hl a List.mem_cons_self) (l.flatMap ser ++ rest)
    have htail := ih fun b hb => hl b (List.mem_cons_of_mem a hb)
    rw [List.length_cons, List.flatMap_cons, List.append_assoc, ListParser.count, hhead]
    simp only [Option.bind_eq_bind, Option.bind_some, htail]
    rfl

/-- A count written by `enc` and read back by `len`, then the items. -/
theorem ReadsBack.lengthCount (h : ReadsBack ser item P) {enc : ℕ → List σ}
    {len : List σ → Option (ℕ × List σ)} {l : List α} (hlen : ReadsBack enc len (· = l.length))
    (hl : ∀ a ∈ l, P a) (rest : List σ) :
    ListParser.lengthCount len item (enc l.length ++ l.flatMap ser ++ rest) = some (l, rest) := by
  rw [ListParser.lengthCount, List.append_assoc, hlen l.length rfl]
  exact h.count hl rest

end ReadsBack

end ListParser
