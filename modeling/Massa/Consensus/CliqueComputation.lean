import Massa.Lib.Lists
import Massa.Lib.MaxCliques
import Massa.Lib.SortedMap
import Mathlib

/-!
# Max cliques of compatible blocks (`massa-consensus-worker/src/state/clique_computation.rs`)

`compute_max_cliques` takes the incompatibility map `gi_head` (each block to
the blocks it is incompatible with) and returns the maximal cliques of
compatible blocks, by the IK_GPX variant of Bron–Kerbosch on an explicit
stack of nodes `(r, p, x)`.  The model keeps the loops of the source: the
`while let` loop over the stack (`computeMaxCliquesLoop`), the GPX pivot
(`choosePivot`, through `max_by_key`), and the `for` loop that pushes one
node per candidate (`pushBranches`).  `gi_head[u]` panics on a missing key.
Block ids are iterated in their order, one of the orders of a hash set.

The loop terminates: a node weighs `2 ^ |p|`, and the nodes that replace it
weigh less (`pushBranches_weight`).

Every node on the stack keeps `SearchInvariant`: `r` is a clique of
compatible blocks, and `p ∪ x` holds exactly the blocks that extend it.  A
node then stands for its branch (`BronKerbosch.branch`), and

* `pushBranches_spec` — the nodes that the `for` loop pushes split the
  branch of their parent among the candidates they take;
* `computeMaxCliquesLoop_spec` — the loop returns, each once, the cliques of
  the branches of the nodes on the stack;
* `computeMaxCliques_returns_maxCliques` — from the root, whose branch holds
  every max clique, `compute_max_cliques` returns each max clique once.
-/

namespace Massa

open BronKerbosch

variable {α : Type*} [LinearOrder α]

/-- A node `(r, p, x)` of the search stack. -/
abbrev SearchNode (α : Type*) := Finset α × Finset α × Finset α

/-- `gi_head.keys()`: the blocks of the graph. -/
def giKeys (giHead : SortedMap α (Finset α)) : Finset α :=
  (giHead.entries.map Prod.fst).toFinset

/-- The blocks that a block is incompatible with; none for a block that is
not a key. -/
def incompatibles (giHead : SortedMap α (Finset α)) (u : α) : Finset α :=
  (giHead.get? u).getD ∅

/-- `gi_head[u]`: the index of a `HashMap` panics on a missing key. -/
def giIndex (giHead : SortedMap α (Finset α)) (u : α) : Except String (Finset α) :=
  match giHead.get? u with
  | some incomp => .ok incomp
  | none => .error "no entry found for key"

/-- The compatibility graph: two distinct blocks are adjacent when neither is
incompatible with the other. -/
def compatGraph (giHead : SortedMap α (Finset α)) : SimpleGraph α where
  Adj u v := u ≠ v ∧ v ∉ incompatibles giHead u ∧ u ∉ incompatibles giHead v
  symm := ⟨fun _ _ ⟨hne, huv, hvu⟩ => ⟨hne.symm, hvu, huv⟩⟩
  loopless := ⟨fun _ h => h.1 rfl⟩

/-- The GPX pivot: the block `u` of `p ∪ x` with the most candidates
compatible with it, `p.difference(gi_head[u] ∪ {u}).count()`, the last such
one as `max_by_key` returns it; the `unwrap` panics on an empty union. -/
def choosePivot (giHead : SortedMap α (Finset α)) (p x : Finset α) : Except String α := do
  let scored ← ((p ∪ x).sort (· ≤ ·)).mapM fun u => do
    let incomp ← giIndex giHead u
    pure (u, (p \ (incomp ∪ {u})).card)
  match scored.maxByKey Prod.snd with
  | some (u, _) => pure u
  | none => throw "called `Option::unwrap()` on a `None` value"

/-- The `for u_i in u_set` loop of a node `(r, p, x)`: each candidate leaves
`p`, the node of `r ∪ {u_i}` over the blocks of `p` and of `x` compatible
with `u_i` is pushed, and `u_i` joins `x`. -/
def pushBranches (giHead : SortedMap α (Finset α)) (r : Finset α) :
    List α → Finset α → Finset α → List (SearchNode α) → Except String (List (SearchNode α))
  | [], _, _, stack => .ok stack
  | uI :: uSet, p, x, stack => do
    let p := p.erase uI
    let incomp ← giIndex giHead uI
    let compNUI := incomp ∪ {uI}
    pushBranches giHead r uSet p (insert uI x) ((r ∪ {uI}, p \ compNUI, x \ compNUI) :: stack)

/-- The weight of a stack: `2 ^ |p|` for each node. -/
def stackWeight (stack : List (SearchNode α)) : ℕ :=
  (stack.map fun node => 2 ^ node.2.1.card).sum

/-- The nodes that the `for` loop pushes, for distinct candidates of `p`,
weigh together at most `2 ^ |p|` less what `p` keeps. -/
theorem pushBranches_weight {giHead : SortedMap α (Finset α)} {r : Finset α} :
    ∀ {uSet : List α} {p x : Finset α} {stack stack' : List (SearchNode α)},
      uSet.Nodup → (∀ u ∈ uSet, u ∈ p) →
      pushBranches giHead r uSet p x stack = .ok stack' →
      stackWeight stack' + 2 ^ (p.card - uSet.length) ≤ stackWeight stack + 2 ^ p.card
  | [], p, x, stack, stack', _, _, h => by
    cases h
    simp
  | u :: uSet, p, x, stack, stack', hnodup, hmem, h => by
    obtain ⟨hu, hnodup'⟩ := List.nodup_cons.mp hnodup
    have hup : u ∈ p := hmem u List.mem_cons_self
    rw [pushBranches] at h
    cases hidx : giIndex giHead u with
    | error e =>
      rw [hidx] at h
      cases h
    | ok incomp =>
      rw [hidx, Except.ok_bind] at h
      dsimp only at h
      -- the rest of the loop runs on `p.erase u`, which still holds the other candidates
      have hmem' : ∀ v ∈ uSet, v ∈ p.erase u := fun v hv =>
        Finset.mem_erase.mpr ⟨fun hvu => hu (hvu ▸ hv), hmem v (List.mem_cons_of_mem u hv)⟩
      have ih := pushBranches_weight hnodup' hmem' h
      have hcard : (p.erase u).card = p.card - 1 := Finset.card_erase_of_mem hup
      have hpos : 1 ≤ p.card := Finset.card_pos.mpr ⟨u, hup⟩
      -- the pushed node has at most the candidates left in `p.erase u`
      have hchild : 2 ^ ((p.erase u) \ (incomp ∪ {u})).card ≤ 2 ^ (p.card - 1) :=
        Nat.pow_le_pow_right Nat.zero_lt_two (hcard ▸ Finset.card_le_card Finset.sdiff_subset)
      have htwice : 2 ^ (p.card - 1) + 2 ^ (p.card - 1) = 2 ^ p.card := by
        rw [← two_mul, ← pow_succ', Nat.sub_add_cancel hpos]
      have hexp : p.card - 1 - uSet.length = p.card - (u :: uSet).length := by
        rw [List.length_cons]
        omega
      simp only [stackWeight, List.map_cons, List.sum_cons] at ih ⊢
      rw [hcard, hexp] at ih
      omega

/-- A node whose candidates the `for` loop takes is replaced by lighter ones. -/
theorem pushBranches_weight_lt {giHead : SortedMap α (Finset α)} {r : Finset α}
    {uSet : List α} {p x : Finset α} {stack stack' : List (SearchNode α)}
    (hnodup : uSet.Nodup) (hmem : ∀ u ∈ uSet, u ∈ p)
    (h : pushBranches giHead r uSet p x stack = .ok stack') :
    stackWeight stack' < stackWeight ((r, p, x) :: stack) := by
  have hweight := pushBranches_weight hnodup hmem h
  have hpos : 1 ≤ 2 ^ (p.card - uSet.length) := Nat.one_le_two_pow
  simp only [stackWeight, List.map_cons, List.sum_cons] at hweight ⊢
  omega

/-- The candidates that the `for` loop of a node takes, `u_set` in order, are
distinct candidates of `p`. -/
theorem sort_uSet_spec (p s : Finset α) :
    ((p ∩ s).sort (· ≤ ·)).Nodup ∧ ∀ u ∈ (p ∩ s).sort (· ≤ ·), u ∈ p :=
  ⟨Finset.sort_nodup _ _, fun _ hu => (Finset.mem_inter.mp ((Finset.mem_sort _).mp hu)).1⟩

/-- The `while let Some((r, mut p, mut x)) = stack.pop()` loop: a node with
nothing left to add or to exclude is a max clique; any other node is
replaced by the nodes of the candidates that are the pivot or incompatible
with it. -/
def computeMaxCliquesLoop (giHead : SortedMap α (Finset α)) (stack : List (SearchNode α))
    (maxCliques : List (Finset α)) : Except String (List (Finset α)) :=
  match stack with
  | [] => .ok maxCliques
  | (r, p, x) :: stack =>
    if p = ∅ ∧ x = ∅ then computeMaxCliquesLoop giHead stack (maxCliques ++ [r])
    else
      match choosePivot giHead p x with
      | .error e => .error e
      | .ok uP =>
        match giIndex giHead uP with
        | .error e => .error e
        | .ok incompUP =>
          -- `u_set = p ∩ (gi_head[u_p] ∪ {u_p})`
          match hpush : pushBranches giHead r ((p ∩ (incompUP ∪ {uP})).sort (· ≤ ·)) p x stack with
          | .error e => .error e
          | .ok stack' => computeMaxCliquesLoop giHead stack' maxCliques
termination_by stackWeight stack
decreasing_by
  · simp only [stackWeight, List.map_cons, List.sum_cons]
    have hpos : 1 ≤ 2 ^ p.card := Nat.one_le_two_pow
    omega
  · exact pushBranches_weight_lt (sort_uSet_spec _ _).1 (sort_uSet_spec _ _).2 hpush

/-- `compute_max_cliques`: the search from the node with every block a
candidate. -/
def computeMaxCliques (giHead : SortedMap α (Finset α)) : Except String (List (Finset α)) :=
  computeMaxCliquesLoop giHead [(∅, giKeys giHead, ∅)] []

/-! ### Reading `gi_head` -/

/-- `gi_head` is symmetric on its keys: a block incompatible with another is
listed by it in turn. -/
def IncompatibilitySymmetric (giHead : SortedMap α (Finset α)) : Prop :=
  ∀ u ∈ giKeys giHead, ∀ v ∈ giKeys giHead,
    v ∈ incompatibles giHead u → u ∈ incompatibles giHead v

variable {giHead : SortedMap α (Finset α)}

@[simp] theorem compatGraph_adj {u v : α} :
    (compatGraph giHead).Adj u v ↔
      u ≠ v ∧ v ∉ incompatibles giHead u ∧ u ∉ incompatibles giHead v :=
  Iff.rfl

theorem mem_giKeys {u : α} : u ∈ giKeys giHead ↔ ∃ incomp, giHead.get? u = some incomp := by
  simp only [giKeys, List.mem_toFinset, List.mem_map]
  constructor
  · rintro ⟨⟨k, incomp⟩, hmem, rfl⟩
    exact ⟨incomp, (SortedMap.mem_entries_iff _ _ _).mp hmem⟩
  · rintro ⟨incomp, h⟩
    exact ⟨(u, incomp), (SortedMap.mem_entries_iff _ _ _).mpr h, rfl⟩

/-- The index of a key reads its incompatibilities without panicking. -/
theorem giIndex_eq_ok {u : α} (hu : u ∈ giKeys giHead) :
    giIndex giHead u = .ok (incompatibles giHead u) := by
  obtain ⟨incomp, h⟩ := mem_giKeys.mp hu
  unfold giIndex incompatibles
  rw [h]
  rfl

/-- Of the keys, those outside `gi_head[u] ∪ {u}` are the blocks compatible
with `u`. -/
theorem not_mem_compN_iff (hsymm : IncompatibilitySymmetric giHead) {u v : α}
    (hu : u ∈ giKeys giHead) (hv : v ∈ giKeys giHead) :
    v ∉ incompatibles giHead u ∪ {u} ↔ (compatGraph giHead).Adj u v := by
  rw [Finset.mem_union, Finset.mem_singleton, not_or, compatGraph_adj]
  constructor
  · rintro ⟨hvu, hne⟩
    exact ⟨Ne.symm hne, hvu, fun huv => hvu (hsymm v hv u hu huv)⟩
  · rintro ⟨hne, hvu, -⟩
    exact ⟨hvu, Ne.symm hne⟩

/-- The pivot of a node whose candidates and excluded blocks are keys is one
of them. -/
theorem choosePivot_eq_ok {p x : Finset α} (hkeys : p ∪ x ⊆ giKeys giHead)
    (hne : ¬(p = ∅ ∧ x = ∅)) : ∃ uP, choosePivot giHead p x = .ok uP ∧ uP ∈ p ∪ x := by
  -- every score reads a key
  have hscored := List.mapM_eq_ok_of_forall (l := (p ∪ x).sort (· ≤ ·))
    (f := fun u => do
      let incomp ← giIndex giHead u
      pure (u, (p \ (incomp ∪ {u})).card))
    (g := fun u => (u, (p \ (incompatibles giHead u ∪ {u})).card))
    fun u hu => by
      rw [giIndex_eq_ok (hkeys ((Finset.mem_sort _).mp hu))]
      rfl
  -- the union is not empty, so `max_by_key` finds a pivot
  obtain ⟨v, hv⟩ : (p ∪ x).Nonempty := by
    rw [Finset.nonempty_iff_ne_empty, Ne, Finset.union_eq_empty]
    exact hne
  have hlist : ((p ∪ x).sort (· ≤ ·)).map
      (fun u => (u, (p \ (incompatibles giHead u ∪ {u})).card)) ≠ [] :=
    List.ne_nil_of_mem (List.mem_map_of_mem ((Finset.mem_sort _).mpr hv))
  obtain ⟨⟨uP, score⟩, hmax⟩ := List.maxByKey_eq_some_of_ne_nil Prod.snd hlist
  obtain ⟨u, hu, hpair⟩ := List.mem_map.mp (List.maxByKey_mem hmax)
  obtain rfl : u = uP := congrArg Prod.fst hpair
  refine ⟨u, ?_, (Finset.mem_sort _).mp hu⟩
  rw [choosePivot, hscored, Except.ok_bind, hmax]
  rfl

/-! ### The search invariant -/

/-- The invariant of a node `(r, p, x)` of the stack: `r` is a clique of
compatible blocks, and `p ∪ x` holds exactly the blocks that extend it. -/
structure SearchInvariant (giHead : SortedMap α (Finset α)) (node : SearchNode α) : Prop where
  subset : node.1 ⊆ giKeys giHead
  isClique : (compatGraph giHead).IsClique (node.1 : Set α)
  mem_iff : ∀ v, v ∈ node.2.1 ∪ node.2.2 ↔ Extends (compatGraph giHead) (giKeys giHead) node.1 v

/-- The branch of a node: the max cliques that it stands for. -/
def nodeBranch (giHead : SortedMap α (Finset α)) (node : SearchNode α) : Set (Finset α) :=
  branch (compatGraph giHead) (giKeys giHead) node.1 node.2.1

/-- A block of `p ∪ x` is a key that extends `r`. -/
theorem SearchInvariant.extends_of_mem {r p x : Finset α} (hinv : SearchInvariant giHead (r, p, x))
    {v : α} (hv : v ∈ p ∪ x) : Extends (compatGraph giHead) (giKeys giHead) r v :=
  (hinv.mem_iff v).mp hv

/-- Moving a candidate from `p` to `x` keeps the invariant. -/
theorem SearchInvariant.move {r p x : Finset α} (hinv : SearchInvariant giHead (r, p, x))
    {u : α} (hu : u ∈ p) : SearchInvariant giHead (r, p.erase u, insert u x) := by
  refine ⟨hinv.subset, hinv.isClique, fun v => ?_⟩
  rw [← hinv.mem_iff v]
  simp only [Finset.mem_union, Finset.mem_erase, Finset.mem_insert]
  constructor
  · rintro (⟨-, hvp⟩ | rfl | hvx)
    · exact .inl hvp
    · exact .inl hu
    · exact .inr hvx
  · rintro (hvp | hvx)
    · by_cases hvu : v = u
      · exact .inr (.inl hvu)
      · exact .inl ⟨hvu, hvp⟩
    · exact .inr (.inr hvx)

/-- The node that the `for` loop pushes for a candidate `u` keeps the
invariant, and its branch is the part of its parent's branch that holds `u`. -/
theorem SearchInvariant.child (hsymm : IncompatibilitySymmetric giHead) {r p x : Finset α}
    (hinv : SearchInvariant giHead (r, p, x)) {u : α} (hu : u ∈ p) :
    SearchInvariant giHead (r ∪ {u}, p.erase u \ (incompatibles giHead u ∪ {u}),
        x \ (incompatibles giHead u ∪ {u})) ∧
      ∀ C, C ∈ nodeBranch giHead (r ∪ {u}, p.erase u \ (incompatibles giHead u ∪ {u}),
          x \ (incompatibles giHead u ∪ {u})) ↔ C ∈ nodeBranch giHead (r, p, x) ∧ u ∈ C := by
  have hext := hinv.extends_of_mem (Finset.mem_union_left x hu)
  -- of `p ∪ x`, the blocks left out by `gi_head[u] ∪ {u}` are those compatible with `u`
  have hcompat : ∀ s ⊆ p ∪ x, ∀ v, v ∈ s \ (incompatibles giHead u ∪ {u}) ↔
      v ∈ s ∧ (compatGraph giHead).Adj u v := by
    intro s hs v
    rw [Finset.mem_sdiff]
    constructor
    · rintro ⟨hvs, hvn⟩
      exact ⟨hvs, (not_mem_compN_iff hsymm hext.1 (hinv.extends_of_mem (hs hvs)).1).mp hvn⟩
    · rintro ⟨hvs, hadj⟩
      exact ⟨hvs, (not_mem_compN_iff hsymm hext.1 (hinv.extends_of_mem (hs hvs)).1).mpr hadj⟩
  have hcand : ∀ v, v ∈ p.erase u \ (incompatibles giHead u ∪ {u}) ↔
      v ∈ p ∧ (compatGraph giHead).Adj u v := by
    intro v
    rw [hcompat _ ((Finset.erase_subset u p).trans Finset.subset_union_left), Finset.mem_erase]
    constructor
    · rintro ⟨⟨-, hvp⟩, hadj⟩
      exact ⟨hvp, hadj⟩
    · rintro ⟨hvp, hadj⟩
      exact ⟨⟨((compatGraph giHead).ne_of_adj hadj).symm, hvp⟩, hadj⟩
  have hexcl := hcompat x Finset.subset_union_right
  rw [Finset.union_singleton]
  refine ⟨⟨Finset.insert_subset hext.1 hinv.subset, ?_, fun v => ?_⟩, fun C => ?_⟩
  · rw [Finset.coe_insert, SimpleGraph.isClique_insert]
    exact ⟨hinv.isClique, fun b hb _ => hext.2.2 b hb⟩
  · -- the blocks that extend `insert u r` extend `r` and are compatible with `u`
    rw [extends_insert_iff, ← hinv.mem_iff v, Finset.mem_union, hcand, hexcl, Finset.mem_union]
    tauto
  · exact mem_branch_insert hu hcand

/-! ### The `for` loop -/

/-- **The `for` loop.**  For distinct candidates of a node that keeps the
invariant, the loop pushes nodes that keep it, whose branches are disjoint
and together hold the cliques of the node's branch that contain one of the
candidates taken. -/
theorem pushBranches_spec (hsymm : IncompatibilitySymmetric giHead) {r : Finset α} :
    ∀ {uSet : List α} {p x : Finset α} (stack : List (SearchNode α)),
      SearchInvariant giHead (r, p, x) → uSet.Nodup → (∀ u ∈ uSet, u ∈ p) →
      ∃ children, pushBranches giHead r uSet p x stack = .ok (children ++ stack) ∧
        (∀ c ∈ children, SearchInvariant giHead c) ∧
        children.Pairwise (fun c d => Disjoint (nodeBranch giHead c) (nodeBranch giHead d)) ∧
        ∀ C, (∃ c ∈ children, C ∈ nodeBranch giHead c) ↔
          C ∈ nodeBranch giHead (r, p, x) ∧ ∃ u ∈ uSet, u ∈ C
  | [], p, x, stack, _, _, _ => ⟨[], rfl, by simp, .nil, by simp⟩
  | u :: uSet, p, x, stack, hinv, hnodup, hmem => by
    obtain ⟨hu, hnodup'⟩ := List.nodup_cons.mp hnodup
    have hup : u ∈ p := hmem u List.mem_cons_self
    have hext := hinv.extends_of_mem (Finset.mem_union_left x hup)
    obtain ⟨hchild, hchildBranch⟩ := hinv.child hsymm hup
    have hmem' : ∀ v ∈ uSet, v ∈ p.erase u := fun v hv =>
      Finset.mem_erase.mpr ⟨fun hvu => hu (hvu ▸ hv), hmem v (List.mem_cons_of_mem u hv)⟩
    -- the rest of the loop runs on the node with `u` moved to `x`
    obtain ⟨children, hpush, hinvs, hdisj, hcover⟩ :=
      pushBranches_spec hsymm ((r ∪ {u}, p.erase u \ (incompatibles giHead u ∪ {u}),
        x \ (incompatibles giHead u ∪ {u})) :: stack) (hinv.move hup) hnodup' hmem'
    -- the later branches avoid `u`, which the pushed node holds
    have hrest : ∀ C, (∃ c ∈ children, C ∈ nodeBranch giHead c) ↔
        (C ∈ nodeBranch giHead (r, p, x) ∧ u ∉ C) ∧ ∃ w ∈ uSet, w ∈ C := by
      intro C
      rw [hcover C]
      exact and_congr_left' (mem_branch_erase hext.2.1)
    refine ⟨children ++ [(r ∪ {u}, p.erase u \ (incompatibles giHead u ∪ {u}),
      x \ (incompatibles giHead u ∪ {u}))], ?_, ?_, ?_, fun C => ?_⟩
    · rw [pushBranches, giIndex_eq_ok hext.1, Except.ok_bind, List.append_assoc]
      exact hpush
    · intro c hc
      rcases List.mem_append.mp hc with hc | hc
      · exact hinvs c hc
      · rw [List.mem_singleton.mp hc]
        exact hchild
    · refine List.pairwise_append.mpr ⟨hdisj, List.pairwise_singleton _ _, fun c hc d hd => ?_⟩
      rw [List.mem_singleton.mp hd]
      refine Set.disjoint_left.mpr fun C hCc hCd => ?_
      exact ((hrest C).mp ⟨c, hc, hCc⟩).1.2 ((hchildBranch C).mp hCd).2
    · simp only [List.mem_append, List.mem_cons, List.not_mem_nil, or_false]
      constructor
      · rintro ⟨c, hc | rfl, hCc⟩
        · obtain ⟨⟨hC, -⟩, w, hw, hwC⟩ := (hrest C).mp ⟨c, hc, hCc⟩
          exact ⟨hC, w, .inr hw, hwC⟩
        · obtain ⟨hC, huC⟩ := (hchildBranch C).mp hCc
          exact ⟨hC, u, .inl rfl, huC⟩
      · rintro ⟨hC, w, hw, hwC⟩
        by_cases huC : u ∈ C
        · exact ⟨_, .inr rfl, (hchildBranch C).mpr ⟨hC, huC⟩⟩
        · have hw' : w ∈ uSet := hw.resolve_left fun hwu => huC (hwu ▸ hwC)
          obtain ⟨c, hc, hCc⟩ := (hrest C).mpr ⟨⟨hC, huC⟩, w, hw', hwC⟩
          exact ⟨c, .inl hc, hCc⟩

/-! ### The `while` loop -/

/-- The pivot's set `p ∩ (gi_head[u_p] ∪ {u_p})` meets every clique of the
node's branch. -/
theorem exists_mem_uSet (hsymm : IncompatibilitySymmetric giHead) {r p x : Finset α}
    (hinv : SearchInvariant giHead (r, p, x)) {uP : α} (huP : uP ∈ p ∪ x) {C : Finset α}
    (hC : C ∈ nodeBranch giHead (r, p, x)) :
    ∃ u ∈ (p ∩ (incompatibles giHead uP ∪ {uP})).sort (· ≤ ·), u ∈ C := by
  have hext := hinv.extends_of_mem huP
  obtain ⟨v, hvC, hvp, hv⟩ := exists_mem_branch_of_extends hext hC
  refine ⟨v, (Finset.mem_sort _).mpr (Finset.mem_inter.mpr ⟨hvp, ?_⟩), hvC⟩
  rcases hv with rfl | hnadj
  · exact Finset.mem_union_right _ (Finset.mem_singleton_self v)
  · -- a candidate not compatible with the pivot is the pivot or incompatible with it
    by_contra hvn
    exact hnadj ((not_mem_compN_iff hsymm hext.1
      (hinv.extends_of_mem (Finset.mem_union_left x hvp)).1).mp hvn)

/-- A leaf, with nothing left to add or to exclude, stands for its clique alone. -/
theorem SearchInvariant.nodeBranch_of_leaf {r p x : Finset α}
    (hinv : SearchInvariant giHead (r, p, x)) (hleaf : p = ∅ ∧ x = ∅) :
    nodeBranch giHead (r, p, x) = {r} := by
  refine branch_of_forall_not_extends hinv.subset hinv.isClique (fun v hv => ?_) p
  have hvpx := (hinv.mem_iff v).mpr hv
  rw [hleaf.1, hleaf.2, Finset.union_empty] at hvpx
  exact Finset.notMem_empty v hvpx

/-- **The step at an inner node.**  At a node that keeps the invariant and is
not a leaf, the pivot is a block of `p ∪ x`, its index reads, and the `for`
loop pushes nodes that keep the invariant, whose branches are disjoint and
together make the branch of the node. -/
theorem SearchInvariant.expand (hsymm : IncompatibilitySymmetric giHead) {r p x : Finset α}
    (hinv : SearchInvariant giHead (r, p, x)) (hne : ¬(p = ∅ ∧ x = ∅))
    (stack : List (SearchNode α)) :
    ∃ uP children, choosePivot giHead p x = .ok uP ∧
      giIndex giHead uP = .ok (incompatibles giHead uP) ∧
      pushBranches giHead r ((p ∩ (incompatibles giHead uP ∪ {uP})).sort (· ≤ ·)) p x stack =
        .ok (children ++ stack) ∧
      (∀ c ∈ children, SearchInvariant giHead c) ∧
      children.Pairwise (fun c d => Disjoint (nodeBranch giHead c) (nodeBranch giHead d)) ∧
      ∀ C, (∃ c ∈ children, C ∈ nodeBranch giHead c) ↔ C ∈ nodeBranch giHead (r, p, x) := by
  obtain ⟨uP, hpivot, huP⟩ := choosePivot_eq_ok
    (show p ∪ x ⊆ giKeys giHead from fun v hv => (hinv.extends_of_mem hv).1) hne
  obtain ⟨hnodupU, hmemU⟩ := sort_uSet_spec p (incompatibles giHead uP ∪ {uP})
  obtain ⟨children, hpush, hinvs, hdisj, hcover⟩ :=
    pushBranches_spec hsymm stack hinv hnodupU hmemU
  refine ⟨uP, children, hpivot, giIndex_eq_ok (hinv.extends_of_mem huP).1, hpush, hinvs, hdisj,
    fun C => ?_⟩
  -- by the pivot, every clique of the branch holds one of the candidates taken
  rw [hcover C]
  exact ⟨fun h => h.1, fun hC => ⟨hC, exists_mem_uSet hsymm hinv huP hC⟩⟩

/-- **The `while` loop.**  From a stack of nodes that keep the invariant and
whose branches are disjoint, the loop returns, after the max cliques found
so far, each clique of the branches of the stack exactly once. -/
theorem computeMaxCliquesLoop_spec (hsymm : IncompatibilitySymmetric giHead)
    (stack : List (SearchNode α)) (maxCliques : List (Finset α)) :
    (∀ node ∈ stack, SearchInvariant giHead node) →
    stack.Pairwise (fun c d => Disjoint (nodeBranch giHead c) (nodeBranch giHead d)) →
    ∃ found, computeMaxCliquesLoop giHead stack maxCliques = .ok (maxCliques ++ found) ∧
      found.Nodup ∧ ∀ C, C ∈ found ↔ ∃ node ∈ stack, C ∈ nodeBranch giHead node := by
  fun_induction computeMaxCliquesLoop giHead stack maxCliques with
  | case1 maxCliques =>
    intro _ _
    exact ⟨[], by rw [List.append_nil], List.nodup_nil, by simp⟩
  | case2 maxCliques r p x stack hleaf ih =>
    -- a leaf: its clique is found, and is in no other branch of the stack
    intro hinvs hdisj
    have hbranch := (hinvs (r, p, x) List.mem_cons_self).nodeBranch_of_leaf hleaf
    obtain ⟨hdisjHead, hdisjRest⟩ := List.pairwise_cons.mp hdisj
    obtain ⟨found, hloop, hnodup, hfound⟩ :=
      ih (fun node hnode => hinvs node (List.mem_cons_of_mem _ hnode)) hdisjRest
    have hr : r ∉ found := by
      intro hr
      obtain ⟨node, hnode, hrnode⟩ := (hfound r).mp hr
      have hrhead : r ∈ nodeBranch giHead (r, p, x) := by
        rw [hbranch]
        rfl
      exact Set.disjoint_left.mp (hdisjHead node hnode) hrhead hrnode
    refine ⟨r :: found, by rw [hloop, List.append_assoc, List.singleton_append],
      List.nodup_cons.mpr ⟨hr, hnodup⟩, fun C => ?_⟩
    rw [List.mem_cons, hfound]
    simp only [List.mem_cons, exists_eq_or_imp, hbranch, Set.mem_singleton_iff]
  | case3 maxCliques r p x stack hne e hpivot =>
    intro hinvs _
    obtain ⟨uP, -, hpivot', -⟩ := (hinvs (r, p, x) List.mem_cons_self).expand hsymm hne stack
    rw [hpivot] at hpivot'
    cases hpivot'
  | case4 maxCliques r p x stack hne uP hpivot e hindex =>
    intro hinvs _
    obtain ⟨uP', -, hpivot', hindex', -⟩ :=
      (hinvs (r, p, x) List.mem_cons_self).expand hsymm hne stack
    rw [hpivot] at hpivot'
    cases hpivot'
    rw [hindex] at hindex'
    cases hindex'
  | case5 maxCliques r p x stack hne uP hpivot incompUP hindex e hpush =>
    intro hinvs _
    obtain ⟨uP', children, hpivot', hindex', hpush', -⟩ :=
      (hinvs (r, p, x) List.mem_cons_self).expand hsymm hne stack
    rw [hpivot] at hpivot'
    cases hpivot'
    rw [hindex] at hindex'
    cases hindex'
    rw [hpush] at hpush'
    cases hpush'
  | case6 maxCliques r p x stack hne uP hpivot incompUP hindex stack' hpush ih =>
    -- an inner node: its children take its place, with the same cliques
    intro hinvs hdisj
    obtain ⟨hdisjHead, hdisjRest⟩ := List.pairwise_cons.mp hdisj
    obtain ⟨uP', children, hpivot', hindex', hpush', hinvsChildren, hdisjChildren, hsplit⟩ :=
      (hinvs (r, p, x) List.mem_cons_self).expand hsymm hne stack
    rw [hpivot] at hpivot'
    cases hpivot'
    rw [hindex] at hindex'
    cases hindex'
    rw [hpush] at hpush'
    cases hpush'
    have hinvs' : ∀ node ∈ children ++ stack, SearchInvariant giHead node := by
      intro node hnode
      rcases List.mem_append.mp hnode with hnode | hnode
      · exact hinvsChildren node hnode
      · exact hinvs node (List.mem_cons_of_mem _ hnode)
    have hdisj' : (children ++ stack).Pairwise
        (fun c d => Disjoint (nodeBranch giHead c) (nodeBranch giHead d)) := by
      refine List.pairwise_append.mpr ⟨hdisjChildren, hdisjRest, fun c hc d hd => ?_⟩
      refine Set.disjoint_left.mpr fun C hCc hCd => ?_
      exact Set.disjoint_left.mp (hdisjHead d hd) ((hsplit C).mp ⟨c, hc, hCc⟩) hCd
    obtain ⟨found, hloop, hnodup, hfound⟩ := ih hinvs' hdisj'
    refine ⟨found, hloop, hnodup, fun C => ?_⟩
    rw [hfound]
    simp only [List.mem_cons, exists_eq_or_imp, ← hsplit C]
    simp only [List.mem_append, or_and_right, exists_or]

/-- **`compute_max_cliques` is correct.**  For every incompatibility map that
is symmetric on its keys, `compute_max_cliques` terminates without panicking
and returns every maximal clique of compatible blocks exactly once, and
nothing else. -/
theorem computeMaxCliques_returns_maxCliques (giHead : SortedMap α (Finset α))
    (hsymm : IncompatibilitySymmetric giHead) :
    ∃ maxCliques, computeMaxCliques giHead = .ok maxCliques ∧ maxCliques.Nodup ∧
      ∀ C, C ∈ maxCliques ↔ IsMaxClique (compatGraph giHead) (giKeys giHead) C := by
  -- the root node: no clique yet, every block a candidate
  have hroot : SearchInvariant giHead (∅, giKeys giHead, ∅) := by
    refine ⟨Finset.empty_subset _, ?_, fun v => ?_⟩
    · rw [Finset.coe_empty]
      exact SimpleGraph.isClique_empty
    · rw [Finset.union_empty]
      exact ⟨fun hv => ⟨hv, Finset.notMem_empty v, fun r hr => absurd hr (Finset.notMem_empty r)⟩,
        fun hv => hv.1⟩
  obtain ⟨found, hloop, hnodup, hfound⟩ := computeMaxCliquesLoop_spec hsymm _ []
    (fun node hnode => by
      rw [List.mem_singleton.mp hnode]
      exact hroot)
    (List.pairwise_singleton _ _)
  refine ⟨found, by rw [computeMaxCliques, hloop, List.nil_append], hnodup, fun C => ?_⟩
  rw [hfound]
  simp only [List.mem_singleton, exists_eq_left]
  exact mem_branch_empty

/-- Three blocks, the first two incompatible: the max cliques are `{1, 3}` and
`{2, 3}`. -/
theorem computeMaxCliques_returns_maxCliques_three_blocks :
    let giHead : SortedMap ℕ (Finset ℕ) := ((SortedMap.singleton 1 {2}).insert 2 {1}).insert 3 ∅
    IncompatibilitySymmetric giHead ∧
      ∃ maxCliques, computeMaxCliques giHead = .ok maxCliques ∧ maxCliques.Nodup ∧
        ∀ C, C ∈ maxCliques ↔ IsMaxClique (compatGraph giHead) (giKeys giHead) C := by
  intro giHead
  have hsymm : IncompatibilitySymmetric giHead := by
    unfold IncompatibilitySymmetric
    decide
  exact ⟨hsymm, computeMaxCliques_returns_maxCliques giHead hsymm⟩

end Massa
