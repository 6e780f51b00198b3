import Mathlib

/-!
# Tilings

A family of cells that cut a set into pieces: the cells are pairwise disjoint and together they
are the whole.  Some cells may be empty, which leaves room for a cell to be cut in two.
-/

namespace BrittleKernel

variable {ι α : Type*}

/-- The cells tile the whole. -/
structure Tiles (cell : ι → Set α) (whole : Set α) : Prop where
  disjoint : ∀ i j, i ≠ j → Disjoint (cell i) (cell j)
  cover : ⋃ i, cell i = whole

namespace Tiles

variable {cell cell' : ι → Set α} {whole : Set α}

/-- Every point of the whole is in exactly one cell. -/
theorem existsUnique (h : Tiles cell whole) {x : α} (hx : x ∈ whole) : ∃! i, x ∈ cell i := by
  rw [← h.cover] at hx
  obtain ⟨i, hi⟩ := Set.mem_iUnion.mp hx
  refine ⟨i, hi, fun j hj => ?_⟩
  by_contra hne
  exact Set.disjoint_left.mp (h.disjoint j i hne) hj hi

/-- One cell is cut in two; the other half goes where nothing was. -/
theorem cut (h : Tiles cell whole) {i j : ι} (hne : i ≠ j) (hempty : cell j = ∅)
    (hcut : cell' i ∪ cell' j = cell i) (hapart : Disjoint (cell' i) (cell' j))
    (hrest : ∀ k, k ≠ i → k ≠ j → cell' k = cell k) : Tiles cell' whole where
  disjoint := by
    have hi : cell' i ⊆ cell i := hcut ▸ Set.subset_union_left
    have hj : cell' j ⊆ cell i := hcut ▸ Set.subset_union_right
    -- Both halves lie in the old cell, which is apart from all others.
    have hothers : ∀ k, k ≠ i → k ≠ j → Disjoint (cell' i) (cell' k) ∧ Disjoint (cell' j) (cell' k) := by
      intro k hki hkj
      rw [hrest k hki hkj]
      have hold := h.disjoint i k hki.symm
      exact ⟨hold.mono_left hi, hold.mono_left hj⟩
    intro k l hkl
    by_cases hki : k = i
    · subst hki
      by_cases hlj : l = j
      · exact hlj ▸ hapart
      · exact (hothers l hkl.symm hlj).1
    · by_cases hkj : k = j
      · subst hkj
        by_cases hli : l = i
        · exact hli ▸ hapart.symm
        · exact (hothers l hli hkl.symm).2
      · by_cases hli : l = i
        · exact hli ▸ (hothers k hki hkj).1.symm
        · by_cases hlj : l = j
          · exact hlj ▸ (hothers k hki hkj).2.symm
          · rw [hrest k hki hkj, hrest l hli hlj]
            exact h.disjoint k l hkl
  cover := by
    rw [← h.cover]
    ext x
    simp only [Set.mem_iUnion]
    constructor
    · rintro ⟨k, hk⟩
      by_cases hki : k = i
      · exact ⟨i, hcut ▸ .inl (hki ▸ hk)⟩
      · by_cases hkj : k = j
        · exact ⟨i, hcut ▸ .inr (hkj ▸ hk)⟩
        · exact ⟨k, hrest k hki hkj ▸ hk⟩
    · rintro ⟨k, hk⟩
      by_cases hki : k = i
      · subst hki
        rcases hcut.symm ▸ hk with hleft | hright
        · exact ⟨k, hleft⟩
        · exact ⟨j, hright⟩
      · by_cases hkj : k = j
        · subst hkj
          exact absurd hk (by simp [hempty])
        · exact ⟨k, (hrest k hki hkj).symm ▸ hk⟩

end Tiles

end BrittleKernel
