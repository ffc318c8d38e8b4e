import Massa.ExecutedOps.Changes
import Massa.Lib.SortedMap
import Massa.Models.Slot
import Mathlib.Algebra.Order.BigOperators.Group.Finset

/-!
# Deferred credits (`massa-pos-exports/src/deferred_credits.rs`)

`DeferredCredits` maps a slot to the coins owed to each address at that
slot.  Everything about a value of it is said through its reads
`getAddressCreditsForSlot`: after an insert the inserted amount wins
(`get_insert`), after a sequence of inserts the last one of each slot and
address wins (`get_foldl_insert`), `extend` lets the other credits win
(`get_extend`, an instance of `get_foldl_insert_map`, which also covers the
loop that zeroes taken credits), a sequence of extends lets the newest
credits win (`get_foldl_extend`), `remove_zeros` drops the zero amounts
(`get_removeZeros`) and `get_slot_range` keeps the slots in the range
(`get_getSlotRange`).

`PoSChanges` (`pos_changes.rs`) carries the deferred credits and the roll
counts that a slot's execution changes.
-/

namespace Massa

/-- `DeferredCredits`: for each slot, the amount owed to each address. -/
structure DeferredCredits where
  credits : SortedMap Slot (SortedMap Address Amount)

namespace DeferredCredits

/-- `DeferredCredits::new`. -/
def new : DeferredCredits := ⟨∅⟩

/-- `DeferredCredits::insert`; the replaced amount it returns is not used by
the modelled callers. -/
def insert (self : DeferredCredits) (slot : Slot) (address : Address) (amount : Amount) :
    DeferredCredits :=
  ⟨self.credits.insert slot (((self.credits.get? slot).getD ∅).insert address amount)⟩

/-- `DeferredCredits::get_address_credits_for_slot`. -/
def getAddressCreditsForSlot (self : DeferredCredits) (addr : Address) (slot : Slot) :
    Option Amount :=
  (self.credits.get? slot).bind fun slotCredits => slotCredits.get? addr

/-- `DeferredCredits::get_slot_range`: `BTreeMap::range`, which panics on an
inverted range. -/
def getSlotRange (self : DeferredCredits) (lo hi : Bound Slot) : Except String DeferredCredits :=
  (self.credits.range lo hi).map DeferredCredits.mk

/-- `DeferredCredits::extend`: insert every credit of `other`. -/
def extend (self other : DeferredCredits) : DeferredCredits :=
  other.credits.entries.foldl
    (fun acc e => e.2.entries.foldl (fun acc c => acc.insert e.1 c.1 c.2) acc) self

/-- `DeferredCredits::remove_zeros`: drop the zero amounts, then the slots
left empty. -/
def removeZeros (self : DeferredCredits) : DeferredCredits :=
  let credits := self.credits.mapVals fun _ slotCredits =>
    slotCredits.filter fun _ amount => !amount.isZero
  let emptySlots := (credits.entries.filter fun e => e.2.entries.isEmpty).map Prod.fst
  ⟨emptySlots.foldl (fun credits slot => credits.erase slot) credits⟩

@[simp] theorem get_new (addr : Address) (slot : Slot) :
    new.getAddressCreditsForSlot addr slot = none := rfl

theorem get_insert (self : DeferredCredits) (slot : Slot) (address : Address) (amount : Amount)
    (addr : Address) (s : Slot) :
    (self.insert slot address amount).getAddressCreditsForSlot addr s =
      if s = slot ∧ addr = address then some amount else self.getAddressCreditsForSlot addr s := by
  unfold insert getAddressCreditsForSlot
  rw [SortedMap.get?_insert]
  by_cases hs : s = slot
  · subst hs
    rw [if_pos rfl, Option.bind_some, SortedMap.get?_insert]
    by_cases ha : addr = address
    · rw [if_pos ha, if_pos ⟨rfl, ha⟩]
    · rw [if_neg ha, if_neg (fun h => ha h.2)]
      cases self.credits.get? s <;> rfl
  · rw [if_neg hs, if_neg (fun h => hs h.1)]

/-- **Reads after inserts.**  After a sequence of inserts, a slot and an
address read the last amount inserted for them, or what they read before. -/
theorem get_foldl_insert {β : Type*} (self : DeferredCredits) (l : List β) (slot : β → Slot)
    (address : β → Address) (amount : β → Amount) (addr : Address) (s : Slot) :
    (l.foldl (fun acc e => acc.insert (slot e) (address e) (amount e)) self).getAddressCreditsForSlot
        addr s =
      (lookup (s, addr) (l.map fun e => ((slot e, address e), amount e)).reverse).or
        (self.getAddressCreditsForSlot addr s) := by
  induction l generalizing self with
  | nil => rfl
  | cons e l ih =>
    rw [List.foldl_cons, ih, get_insert, List.map_cons, List.reverse_cons, lookup_append,
      lookup_cons, lookup_nil]
    -- the insert of `e` is read unless a later insert of the same slot and address hides it
    by_cases he : s = slot e ∧ addr = address e
    · rw [if_pos he, if_pos (by rw [he.1, he.2])]
      cases lookup (s, addr) (List.map (fun e => ((slot e, address e), amount e)) l).reverse <;> rfl
    · rw [if_neg he, if_neg (fun h => he (Prod.mk.inj h.symm))]
      cases lookup (s, addr) (List.map (fun e => ((slot e, address e), amount e)) l).reverse <;> rfl

/-- The credits of one slot inserted one by one, each amount mapped by `g`. -/
theorem get_foldl_insert_slot (self : DeferredCredits) (slot : Slot)
    (slotCredits : SortedMap Address Amount) (g : Amount → Amount) (addr : Address) (s : Slot) :
    (slotCredits.entries.foldl (fun acc c => acc.insert slot c.1 (g c.2))
        self).getAddressCreditsForSlot addr s =
      if s = slot then ((slotCredits.get? addr).map g).or (self.getAddressCreditsForSlot addr s)
      else self.getAddressCreditsForSlot addr s := by
  rw [get_foldl_insert self slotCredits.entries (fun _ => slot) Prod.fst (fun c => g c.2)]
  have hinj : Function.Injective fun a : Address => (slot, a) := fun _ _ h => (Prod.mk.inj h).2
  have hnodup : ((slotCredits.entries.map fun c => ((slot, c.1), g c.2)).map Prod.fst).Nodup := by
    have hmapped := slotCredits.nodup_keys.map hinj
    simpa only [List.map_map, Function.comp_def] using hmapped
  rw [lookup_reverse hnodup]
  by_cases hs : s = slot
  · subst hs
    rw [if_pos rfl, lookup_map_of_injective hinj g, SortedMap.get?_eq_lookup]
  · rw [if_neg hs, lookup_map_of_forall_ne (h := fun a => (slot, a))
      (fun a h => hs (Prod.mk.inj h).1.symm) g, Option.none_or]

/-- **Inserting all the credits of another value**, each amount mapped by
`g`: the loop of `extend` (with `g` the identity) and the loop that zeroes
the taken credits in `take_unexecuted_deferred_credits`.  The mapped credits
of `other` win. -/
theorem get_foldl_insert_map (self other : DeferredCredits) (g : Amount → Amount)
    (addr : Address) (s : Slot) :
    (other.credits.entries.foldl
        (fun acc e => e.2.entries.foldl (fun acc c => acc.insert e.1 c.1 (g c.2)) acc)
        self).getAddressCreditsForSlot addr s =
      ((other.getAddressCreditsForSlot addr s).map g).or (self.getAddressCreditsForSlot addr s) := by
  -- induction over the sorted slots of `other`, each slot inserted by `get_foldl_insert_slot`
  suffices ∀ (l : List (Slot × SortedMap Address Amount)) (acc : DeferredCredits),
      KeysSorted l →
      (l.foldl (fun acc e => e.2.entries.foldl (fun acc c => acc.insert e.1 c.1 (g c.2)) acc)
          acc).getAddressCreditsForSlot addr s =
        (((lookup s l).bind fun c => c.get? addr).map g).or (acc.getAddressCreditsForSlot addr s) by
    rw [this other.credits.entries self other.credits.sorted]
    unfold getAddressCreditsForSlot
    rw [SortedMap.get?_eq_lookup other.credits]
  intro l
  induction l with
  | nil => intro acc _; rfl
  | cons e l ih =>
    intro acc hsorted
    obtain ⟨slot, slotCredits⟩ := e
    obtain ⟨hhead, hrest⟩ := keysSorted_cons.mp hsorted
    rw [List.foldl_cons, ih _ hrest, get_foldl_insert_slot, lookup_cons]
    by_cases hs : s = slot
    · -- `slot` is the only entry of `s`
      subst hs
      have hnone : lookup s l = none :=
        lookup_eq_none_of_forall fun e he => ne_of_gt (hhead e he)
      rw [if_pos rfl, hnone, if_pos rfl, Option.bind_some, Option.bind_none, Option.map_none,
        Option.none_or]
    · rw [if_neg hs, if_neg (Ne.symm hs)]

/-- `extend` lets the other credits win. -/
theorem get_extend (self other : DeferredCredits) (addr : Address) (s : Slot) :
    (self.extend other).getAddressCreditsForSlot addr s =
      (other.getAddressCreditsForSlot addr s).or (self.getAddressCreditsForSlot addr s) := by
  have h := get_foldl_insert_map self other (fun amount => amount) addr s
  rw [Option.map_id'] at h
  exact h

/-- Extending by a sequence of credits, oldest first: the newest credits
that hold an entry win. -/
theorem get_foldl_extend {β : Type*} (self : DeferredCredits) (l : List β)
    (f : β → DeferredCredits) (addr : Address) (s : Slot) :
    (l.foldl (fun acc x => acc.extend (f x)) self).getAddressCreditsForSlot addr s =
      (l.reverse.findSome? fun x => (f x).getAddressCreditsForSlot addr s).or
        (self.getAddressCreditsForSlot addr s) := by
  induction l generalizing self with
  | nil => rfl
  | cons x l ih =>
    rw [List.foldl_cons, ih, get_extend, List.reverse_cons, List.findSome?_append,
      List.findSome?_singleton, Option.or_assoc]

/-- `remove_zeros` drops exactly the zero amounts. -/
theorem get_removeZeros (self : DeferredCredits) (addr : Address) (s : Slot) :
    self.removeZeros.getAddressCreditsForSlot addr s =
      (self.getAddressCreditsForSlot addr s).filter fun amount => !amount.isZero := by
  unfold removeZeros getAddressCreditsForSlot
  dsimp only
  rw [SortedMap.get?_foldl_erase, SortedMap.get?_mapVals]
  split_ifs with hempty
  · -- a slot left empty reads nothing before the erase either
    obtain ⟨e, he, rfl⟩ := List.mem_map.mp hempty
    obtain ⟨hmem, hnil⟩ := List.mem_filter.mp he
    rw [SortedMap.mem_entries_iff, SortedMap.get?_mapVals] at hmem
    obtain ⟨slotCredits, hslot, hfilter⟩ := Option.map_eq_some_iff.mp hmem
    have hnone : e.2.get? addr = none := by
      rw [SortedMap.get?, List.isEmpty_iff.mp hnil]
      rfl
    rw [← hfilter, SortedMap.get?_filter] at hnone
    rw [hslot, Option.bind_some, hnone]
    rfl
  · cases self.credits.get? s with
    | none => rfl
    | some slotCredits =>
      rw [Option.map_some, Option.bind_some, Option.bind_some, SortedMap.get?_filter]

/-- `get_slot_range` on bounds that `BTreeMap::range` accepts. -/
theorem getSlotRange_of_rangeValid (self : DeferredCredits) {lo hi : Bound Slot}
    (hvalid : Bound.rangeValid lo hi = true) :
    self.getSlotRange lo hi = .ok ⟨self.credits.filter fun k _ => Bound.contains lo hi k⟩ := by
  rw [getSlotRange, SortedMap.range_of_rangeValid _ hvalid]
  rfl

/-- `get_slot_range`, when it does not panic, keeps the slots in the range. -/
theorem get_getSlotRange {self r : DeferredCredits} {lo hi : Bound Slot}
    (h : self.getSlotRange lo hi = .ok r) (addr : Address) (s : Slot) :
    r.getAddressCreditsForSlot addr s =
      if Bound.contains lo hi s then self.getAddressCreditsForSlot addr s else none := by
  unfold getSlotRange at h
  cases hrange : self.credits.range lo hi with
  | error msg =>
    rw [hrange] at h
    cases h
  | ok credits =>
    rw [hrange] at h
    cases h
    unfold getAddressCreditsForSlot
    rw [SortedMap.get?_range hrange]
    split_ifs <;> rfl

/-! ### The coins owed to an address -/

/-- The coins owed to `addr` over all slots, as a number. -/
def addressTotal (self : DeferredCredits) (addr : Address) : ℕ :=
  ∑ s ∈ (self.credits.entries.map Prod.fst).toFinset,
    ((self.getAddressCreditsForSlot addr s).map fun amount => amount.raw.toNat).getD 0

/-- A slot that owes `addr` something is a slot of the credits. -/
theorem mem_slots_of_isSome {self : DeferredCredits} {addr : Address} {s : Slot}
    (h : (self.getAddressCreditsForSlot addr s).isSome = true) :
    s ∈ (self.credits.entries.map Prod.fst).toFinset := by
  obtain ⟨amount, hamount⟩ := Option.isSome_iff_exists.mp h
  obtain ⟨slotCredits, hslot, -⟩ := Option.bind_eq_some_iff.mp hamount
  rw [List.mem_toFinset, List.mem_map]
  exact ⟨(s, slotCredits), (SortedMap.mem_entries_iff _ _ _).mpr hslot, rfl⟩

private theorem isSome_of_owed_ne_zero {credit : Option Amount}
    (h : (credit.map fun amount => amount.raw.toNat).getD 0 ≠ 0) : credit.isSome = true := by
  cases credit with
  | none => exact absurd rfl h
  | some amount => rfl

/-- The total is the sum of the credits over any finite set of slots that
holds every slot owing `addr` a non-zero amount. -/
theorem addressTotal_eq_sum (self : DeferredCredits) (addr : Address) {S : Finset Slot}
    (hS : ∀ s, ((self.getAddressCreditsForSlot addr s).map fun amount => amount.raw.toNat).getD 0 ≠
      0 → s ∈ S) :
    self.addressTotal addr =
      ∑ s ∈ S, ((self.getAddressCreditsForSlot addr s).map fun amount => amount.raw.toNat).getD 0 := by
  -- both sums are the sum over the union: a slot outside either owes nothing
  have hslots : ∀ s, ((self.getAddressCreditsForSlot addr s).map
      fun amount => amount.raw.toNat).getD 0 ≠ 0 → s ∈ (self.credits.entries.map Prod.fst).toFinset :=
    fun s hs => mem_slots_of_isSome (isSome_of_owed_ne_zero hs)
  rw [addressTotal, Finset.sum_subset Finset.subset_union_left fun s _ hs => not_not.mp (mt (hslots s) hs),
    ← Finset.sum_subset Finset.subset_union_right fun s _ hs => not_not.mp (mt (hS s) hs)]

/-- One credit of `addr` is at most its total. -/
theorem getD_le_addressTotal (self : DeferredCredits) (addr : Address) (s : Slot) :
    ((self.getAddressCreditsForSlot addr s).map fun amount => amount.raw.toNat).getD 0 ≤
      self.addressTotal addr := by
  cases hread : self.getAddressCreditsForSlot addr s with
  | none => exact Nat.zero_le _
  | some amount =>
    have hs := mem_slots_of_isSome (show (self.getAddressCreditsForSlot addr s).isSome = true by
      rw [hread]; rfl)
    have hle := Finset.single_le_sum_of_canonicallyOrdered (f := fun s =>
      ((self.getAddressCreditsForSlot addr s).map fun amount => amount.raw.toNat).getD 0) hs
    rw [hread] at hle
    exact hle

/-- **The total after one change.**  When only the credit of `addr` at `t`
changes, to `c`, the total changes by the difference. -/
theorem addressTotal_update {self other : DeferredCredits} {addr : Address} {t : Slot} {c : Amount}
    (hother : ∀ s, s ≠ t →
      other.getAddressCreditsForSlot addr s = self.getAddressCreditsForSlot addr s)
    (ht : other.getAddressCreditsForSlot addr t = some c) :
    other.addressTotal addr +
        ((self.getAddressCreditsForSlot addr t).map fun amount => amount.raw.toNat).getD 0 =
      self.addressTotal addr + c.raw.toNat := by
  set S := (self.credits.entries.map Prod.fst).toFinset ∪ {t} with hSdef
  have htS : t ∈ S := Finset.mem_union_right _ (Finset.mem_singleton_self t)
  have hselfS : ∀ s, ((self.getAddressCreditsForSlot addr s).map
      fun amount => amount.raw.toNat).getD 0 ≠ 0 → s ∈ S :=
    fun s hs => Finset.mem_union_left _ (mem_slots_of_isSome (isSome_of_owed_ne_zero hs))
  have hotherS : ∀ s, ((other.getAddressCreditsForSlot addr s).map
      fun amount => amount.raw.toNat).getD 0 ≠ 0 → s ∈ S := by
    intro s hs
    by_cases hst : s = t
    · rw [hst]
      exact htS
    · rw [hother s hst] at hs
      exact hselfS s hs
  -- the two sums agree off `t`
  have hrest : ∑ s ∈ S.erase t,
        ((other.getAddressCreditsForSlot addr s).map fun amount => amount.raw.toNat).getD 0 =
      ∑ s ∈ S.erase t,
        ((self.getAddressCreditsForSlot addr s).map fun amount => amount.raw.toNat).getD 0 :=
    Finset.sum_congr rfl fun s hs => by rw [hother s (Finset.ne_of_mem_erase hs)]
  rw [other.addressTotal_eq_sum addr hotherS, self.addressTotal_eq_sum addr hselfS,
    ← Finset.add_sum_erase S _ htS, ← Finset.add_sum_erase S _ htS, hrest, ht]
  simp only [Option.map_some, Option.getD_some]
  omega

/-- The credits from `slot` on, those that a range `slot..` reads. -/
def fromSlot (self : DeferredCredits) (slot : Slot) : DeferredCredits :=
  ⟨self.credits.filter fun s _ => decide (slot ≤ s)⟩

theorem get_fromSlot (self : DeferredCredits) (slot : Slot) (addr : Address) (s : Slot) :
    (self.fromSlot slot).getAddressCreditsForSlot addr s =
      if slot ≤ s then self.getAddressCreditsForSlot addr s else none := by
  unfold fromSlot getAddressCreditsForSlot
  rw [SortedMap.get?_filter]
  by_cases h : slot ≤ s <;> cases self.credits.get? s <;> simp [h]

/-- **The total as a sum of entries.**  When a map of amounts owes at each
slot what `addr` is owed there, the total is the sum of its entries. -/
theorem addressTotal_eq_sum_entries (self : DeferredCredits) (addr : Address)
    (m : SortedMap Slot Amount)
    (hm : ∀ s, ((m.get? s).map fun amount => amount.raw.toNat).getD 0 =
      ((self.getAddressCreditsForSlot addr s).map fun amount => amount.raw.toNat).getD 0) :
    self.addressTotal addr = (m.entries.map fun e => e.2.raw.toNat).sum := by
  -- the sum over the entries is the sum over their slots, which are distinct
  have hentries : (m.entries.map fun e => e.2.raw.toNat).sum =
      ∑ s ∈ (m.entries.map Prod.fst).toFinset,
        ((m.get? s).map fun amount => amount.raw.toNat).getD 0 := by
    rw [List.sum_toFinset _ m.sorted.nodup_keys, List.map_map]
    refine congrArg List.sum (List.map_congr_left fun e he => ?_)
    rw [Function.comp_apply, (SortedMap.mem_entries_iff _ _ _).mp he]
    rfl
  rw [hentries]
  refine (self.addressTotal_eq_sum addr fun s hs => ?_).trans
    (Finset.sum_congr rfl fun s _ => (hm s).symm)
  -- a slot owing something is a slot of the map
  rw [← hm s] at hs
  obtain ⟨amount, hamount⟩ := Option.isSome_iff_exists.mp (isSome_of_owed_ne_zero hs)
  rw [List.mem_toFinset, List.mem_map]
  exact ⟨(s, amount), (SortedMap.mem_entries_iff _ _ _).mpr hamount, rfl⟩

end DeferredCredits

/-- `ProductionStats` (`cycle_info.rs`): the blocks an address produced and
the blocks it missed. -/
structure ProductionStats where
  blockSuccessCount : UInt64
  blockFailureCount : UInt64
  deriving DecidableEq, Repr

/-- `ProductionStats::extend`: both counts added, saturating. -/
def ProductionStats.extend (self stats : ProductionStats) : ProductionStats :=
  ⟨saturatingAdd self.blockSuccessCount stats.blockSuccessCount,
    saturatingAdd self.blockFailureCount stats.blockFailureCount⟩

/-- `PoSChanges` (`pos_changes.rs`), with the parts that the modelled reads
and writes use: the new roll counts (`PreHashMap<Address, u64>`), the
production statistics of the slot and the deferred credits. -/
structure PoSChanges where
  rollChanges : SortedMap Address UInt64 := ∅
  productionStats : SortedMap Address ProductionStats := ∅
  deferredCredits : DeferredCredits := .new

end Massa
