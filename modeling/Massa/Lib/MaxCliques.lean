import Mathlib.Combinatorics.SimpleGraph.Clique

/-!
# Maximal cliques and the branches of a Bron–Kerbosch search

For a graph `G` and a finite vertex set `V`, a maximal clique within `V` is a
clique of vertices of `V` that no clique within `V` strictly contains; it is
one that no vertex of `V` extends (`isMaxClique_iff`).

A Bron–Kerbosch search visits nodes `(R, P, X)`: `R` is a clique, and the
vertices that extend it are split into the candidates `P` and the excluded
`X`.  The node stands for its branch (`branch G V R P`): the maximal cliques
that contain `R` and lie within `R ∪ P`.  The search is correct because the
branches split as it does:

* `branch_of_forall_not_extends` — when no vertex extends `R`, the branch is
  `{R}`, the clique that is reported;
* `mem_branch_insert`, `mem_branch_erase` — the cliques of the branch that
  contain a candidate `u` are the branch of `insert u R` over the candidates
  adjacent to `u`, and those that avoid it the branch over `P.erase u`;
* `exists_mem_branch_of_extends` — for any pivot `u` that extends `R`, every
  clique of the branch holds a candidate that is `u` or is not adjacent to
  `u`, so the search may branch on those candidates only.
-/

namespace BronKerbosch

variable {α : Type*} [DecidableEq α] (G : SimpleGraph α) (V : Finset α)

/-- A maximal clique of `G` within `V`. -/
def IsMaxClique (C : Finset α) : Prop :=
  Maximal (fun s : Finset α => s ⊆ V ∧ G.IsClique (s : Set α)) C

/-- `v` extends the clique `R`: a vertex of `V` outside `R` adjacent to all of it. -/
def Extends (R : Finset α) (v : α) : Prop :=
  v ∈ V ∧ v ∉ R ∧ ∀ r ∈ R, G.Adj v r

/-- The branch of a search node: the maximal cliques that contain `R` and lie
within `R ∪ P`. -/
def branch (R P : Finset α) : Set (Finset α) :=
  {C | IsMaxClique G V C ∧ R ⊆ C ∧ C ⊆ R ∪ P}

variable {G V}

/-- A clique within `V` is maximal exactly when no vertex extends it. -/
theorem isMaxClique_iff {C : Finset α} :
    IsMaxClique G V C ↔ C ⊆ V ∧ G.IsClique (C : Set α) ∧ ∀ v, ¬Extends G V C v := by
  constructor
  · rintro ⟨⟨hV, hC⟩, hmax⟩
    refine ⟨hV, hC, fun v ⟨hv, hvC, hadj⟩ => hvC ?_⟩
    -- `insert v C` would be a larger clique within `V`
    have hins : insert v C ⊆ V ∧ G.IsClique ((insert v C : Finset α) : Set α) := by
      refine ⟨Finset.insert_subset hv hV, ?_⟩
      rw [Finset.coe_insert, SimpleGraph.isClique_insert]
      exact ⟨hC, fun b hb _ => hadj b hb⟩
    exact hmax hins (Finset.subset_insert v C) (Finset.mem_insert_self v C)
  · rintro ⟨hV, hC, hno⟩
    refine ⟨⟨hV, hC⟩, fun T ⟨hTV, hTC⟩ hCT t ht => ?_⟩
    by_contra htC
    -- a vertex of a larger clique would extend `C`
    refine hno t ⟨hTV ht, htC, fun r hr => hTC ht (hCT hr) ?_⟩
    rintro rfl
    exact htC hr

omit [DecidableEq α] in
/-- A maximal clique lies within `V`. -/
theorem IsMaxClique.subset {C : Finset α} (h : IsMaxClique G V C) : C ⊆ V :=
  h.prop.1

/-- The root of the search, with no clique yet and every vertex a candidate,
stands for all the maximal cliques. -/
theorem mem_branch_empty {C : Finset α} : C ∈ branch G V ∅ V ↔ IsMaxClique G V C := by
  constructor
  · rintro ⟨h, -, -⟩
    exact h
  · intro h
    refine ⟨h, Finset.empty_subset C, ?_⟩
    rw [Finset.empty_union]
    exact h.subset

/-- **A leaf.**  When no vertex extends the clique `R`, its branch is `{R}`. -/
theorem branch_of_forall_not_extends {R : Finset α} (hRV : R ⊆ V) (hR : G.IsClique (R : Set α))
    (hno : ∀ v, ¬Extends G V R v) (P : Finset α) : branch G V R P = {R} := by
  have hmax : IsMaxClique G V R := isMaxClique_iff.mpr ⟨hRV, hR, hno⟩
  ext C
  constructor
  · rintro ⟨hC, hRC, -⟩
    -- `R` is maximal and below `C`
    exact hmax.eq_of_ge hC.prop hRC
  · rintro rfl
    exact ⟨hmax, subset_rfl, Finset.subset_union_left⟩

/-- **Taking a candidate.**  The cliques of the branch that contain the
candidate `u` are the branch of `insert u R` over the candidates adjacent to `u`. -/
theorem mem_branch_insert {R P P' : Finset α} {u : α} (hu : u ∈ P)
    (hP' : ∀ v, v ∈ P' ↔ v ∈ P ∧ G.Adj u v) {C : Finset α} :
    C ∈ branch G V (insert u R) P' ↔ C ∈ branch G V R P ∧ u ∈ C := by
  constructor
  · rintro ⟨hC, hRC, hCP⟩
    refine ⟨⟨hC, (Finset.subset_insert u R).trans hRC, fun c hc => ?_⟩,
      hRC (Finset.mem_insert_self u R)⟩
    rcases Finset.mem_union.mp (hCP hc) with hcR | hcP
    · rcases Finset.mem_insert.mp hcR with rfl | hcR
      · exact Finset.mem_union_right R hu
      · exact Finset.mem_union_left P hcR
    · exact Finset.mem_union_right R ((hP' c).mp hcP).1
  · rintro ⟨⟨hC, hRC, hCP⟩, huC⟩
    refine ⟨hC, Finset.insert_subset huC hRC, fun c hc => ?_⟩
    by_cases hcu : c = u
    · subst hcu
      exact Finset.mem_union_left P' (Finset.mem_insert_self c R)
    rcases Finset.mem_union.mp (hCP hc) with hcR | hcP
    · exact Finset.mem_union_left P' (Finset.mem_insert_of_mem hcR)
    · -- a candidate in the clique with `u` is adjacent to it
      have hadj : G.Adj u c := hC.prop.2 huC hc (Ne.symm hcu)
      exact Finset.mem_union_right _ ((hP' c).mpr ⟨hcP, hadj⟩)

/-- **Excluding a candidate.**  The cliques of the branch that avoid the
candidate `u` are the branch over `P.erase u`. -/
theorem mem_branch_erase {R P : Finset α} {u : α} (hu : u ∉ R) {C : Finset α} :
    C ∈ branch G V R (P.erase u) ↔ C ∈ branch G V R P ∧ u ∉ C := by
  constructor
  · rintro ⟨hC, hRC, hCP⟩
    refine ⟨⟨hC, hRC, hCP.trans (Finset.union_subset_union_right (Finset.erase_subset u P))⟩,
      fun huC => ?_⟩
    rcases Finset.mem_union.mp (hCP huC) with huR | huP
    · exact hu huR
    · exact Finset.notMem_erase u P huP
  · rintro ⟨⟨hC, hRC, hCP⟩, huC⟩
    refine ⟨hC, hRC, fun c hc => ?_⟩
    rcases Finset.mem_union.mp (hCP hc) with hcR | hcP
    · exact Finset.mem_union_left _ hcR
    · have hcu : c ≠ u := by
        rintro rfl
        exact huC hc
      exact Finset.mem_union_right R (Finset.mem_erase.mpr ⟨hcu, hcP⟩)

/-- **The pivot.**  For a vertex `u` that extends `R`, every clique of the
branch holds a candidate that is `u` or is not adjacent to `u`: otherwise `u`
would extend the clique. -/
theorem exists_mem_branch_of_extends {R P : Finset α} {u : α} (hu : Extends G V R u)
    {C : Finset α} (hC : C ∈ branch G V R P) : ∃ v ∈ C, v ∈ P ∧ (v = u ∨ ¬G.Adj u v) := by
  obtain ⟨hmax, hRC, hCP⟩ := hC
  obtain ⟨huV, huR, huadj⟩ := hu
  by_cases huC : u ∈ C
  · have huP : u ∈ P := (Finset.mem_union.mp (hCP huC)).resolve_left huR
    exact ⟨u, huC, huP, .inl rfl⟩
  · -- `u` does not extend the maximal clique `C`: some vertex of `C` is not adjacent to it
    have hnot := (isMaxClique_iff.mp hmax).2.2 u
    simp only [Extends, not_and, not_forall] at hnot
    obtain ⟨c, hc, hnadj⟩ := hnot huV huC
    have hcR : c ∉ R := fun hcR => hnadj (huadj c hcR)
    exact ⟨c, hc, (Finset.mem_union.mp (hCP hc)).resolve_left hcR, .inr hnadj⟩

/-- The vertices that extend `insert u R` are those that extend `R` and are
adjacent to `u`. -/
theorem extends_insert_iff {R : Finset α} {u v : α} :
    Extends G V (insert u R) v ↔ Extends G V R v ∧ G.Adj u v := by
  constructor
  · rintro ⟨hv, hvR, hadj⟩
    refine ⟨⟨hv, fun h => hvR (Finset.mem_insert_of_mem h),
      fun r hr => hadj r (Finset.mem_insert_of_mem hr)⟩, ?_⟩
    exact (hadj u (Finset.mem_insert_self u R)).symm
  · rintro ⟨⟨hv, hvR, hadj⟩, huv⟩
    refine ⟨hv, ?_, fun r hr => ?_⟩
    · rw [Finset.mem_insert, not_or]
      exact ⟨(G.ne_of_adj huv).symm, hvR⟩
    · rcases Finset.mem_insert.mp hr with rfl | hr
      · exact huv.symm
      · exact hadj r hr

end BronKerbosch
