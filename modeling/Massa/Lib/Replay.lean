import Mathlib.Data.Finset.Card

/-!
# At-most-once execution with pruned records

Replay protection in the form where records are forgotten once they cannot
matter any more.  Batches execute finite sets of ids at positions of a
preorder (slots).  An id can only be executed at a position where it is
live, and liveness shrinks as the position grows: an id that expires stays
expired.  The chain of batches has a final part, summarised by a record set
and a cursor, and an active part that is still kept as a list.  A batch is
admitted at a position after the cursor when its ids are live there and are
neither recorded nor executed by the active part; finalising the oldest
active batch adds its ids to the records, which may then forget any id that
is dead at the new cursor.

`Safe` is the invariant of that discipline and `Safe.push`, `Safe.of_sublist`
and `Safe.finalize` are its step rules.  Its first field is the point: no id
is executed by two batches of the chain, although the records forget.
-/

namespace Replay

variable {β κ σ : Type*}

/-- The invariant of the chain `final ++ active`, with `recorded` the record
set and `cursor` the position of the last final batch. -/
structure Safe (ids : β → Finset κ) (pos : β → σ) (live : κ → σ → Prop)
    (final active : List β) (recorded : κ → Prop) (cursor : σ) : Prop where
  /-- no id is executed by two batches -/
  disjoint : ((final ++ active).map ids).Pairwise Disjoint
  /-- every id is live where it was executed -/
  live_pos : ∀ b ∈ final ++ active, ∀ k ∈ ids b, live k (pos b)
  /-- a finalised id is recorded, or dead at the cursor -/
  recorded_or_dead : ∀ b ∈ final, ∀ k ∈ ids b, recorded k ∨ ¬ live k cursor

variable {ids : β → Finset κ} {pos : β → σ} {live : κ → σ → Prop}

/-- The empty chain, whatever the records. -/
theorem safe_nil (recorded : κ → Prop) (cursor : σ) :
    Safe ids pos live [] [] recorded cursor where
  disjoint := List.Pairwise.nil
  live_pos _ hb := absurd hb List.not_mem_nil
  recorded_or_dead _ hb := absurd hb List.not_mem_nil

namespace Safe

variable {final active : List β} {recorded : κ → Prop} {cursor : σ}

/-- Dropping batches from the active part keeps the invariant. -/
theorem of_sublist (h : Safe ids pos live final active recorded cursor) {active' : List β}
    (hsub : active'.Sublist active) : Safe ids pos live final active' recorded cursor where
  disjoint := h.disjoint.sublist ((hsub.append_left final).map ids)
  live_pos b hb := h.live_pos b ((hsub.append_left final).subset hb)
  recorded_or_dead := h.recorded_or_dead

section Monotone

-- liveness shrinks as the position grows
variable [Preorder σ] (hmono : ∀ k s t, s ≤ t → live k t → live k s)
include hmono

/-- **Admitting a batch.**  A batch after the cursor whose ids are live at
its position and neither recorded nor executed by the active part can be
appended: an id of a final batch that the records forgot is dead at the
cursor, hence at the batch's position. -/
theorem push (h : Safe ids pos live final active recorded cursor) {b : β}
    (hlive : ∀ k ∈ ids b, live k (pos b))
    (hfresh : ∀ k ∈ ids b, ¬ recorded k ∧ ∀ a ∈ active, k ∉ ids a)
    (hpos : cursor ≤ pos b) : Safe ids pos live final (active ++ [b]) recorded cursor where
  disjoint := by
    rw [← List.append_assoc, List.map_append, List.pairwise_append]
    refine ⟨h.disjoint, List.pairwise_singleton _ _, ?_⟩
    intro s hs t ht
    obtain ⟨a, ha, rfl⟩ := List.mem_map.mp hs
    rw [List.map_singleton, List.mem_singleton] at ht
    subst ht
    refine Finset.disjoint_right.mpr fun k hk hka => ?_
    rcases List.mem_append.mp ha with ha | ha
    · rcases h.recorded_or_dead a ha k hka with hrec | hdead
      · exact (hfresh k hk).1 hrec
      · exact hdead (hmono k cursor (pos b) hpos (hlive k hk))
    · exact (hfresh k hk).2 a ha hka
  live_pos a ha := by
    rw [← List.append_assoc, List.mem_append, List.mem_singleton] at ha
    rcases ha with ha | rfl
    · exact h.live_pos a ha
    · exact hlive
  recorded_or_dead := h.recorded_or_dead

/-- **Finalising the oldest active batch.**  The cursor moves forward and the
records take the batch's ids; the new records may forget any id, old or new,
that is dead at the new cursor. -/
theorem finalize {b : β} {rest : List β} (h : Safe ids pos live final (b :: rest) recorded cursor)
    {recorded' : κ → Prop} {cursor' : σ} (hcursor : cursor ≤ cursor')
    (hkeep : ∀ k, recorded k ∨ k ∈ ids b → recorded' k ∨ ¬ live k cursor') :
    Safe ids pos live (final ++ [b]) rest recorded' cursor' where
  disjoint := by
    rw [List.append_assoc, List.singleton_append]
    exact h.disjoint
  live_pos := by
    rw [List.append_assoc, List.singleton_append]
    exact h.live_pos
  recorded_or_dead a ha k hk := by
    rcases List.mem_append.mp ha with ha | ha
    · rcases h.recorded_or_dead a ha k hk with hrec | hdead
      · exact hkeep k (.inl hrec)
      · -- dead at the old cursor, so dead at the new one
        exact .inr fun hlive => hdead (hmono k cursor cursor' hcursor hlive)
    · rw [List.mem_singleton] at ha
      subst ha
      exact hkeep k (.inr hk)

end Monotone

end Safe

end Replay
