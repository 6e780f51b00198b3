import Mathlib.Data.Finset.Card
import Mathlib.Logic.Relation

/-!
# Forests with Parent Pointers

A forest in which every node knows its parent.  It grows by planting a node that was not there
below one that is, and shrinks by felling a leaf.  Both keep the parents inside the forest and
the pointers free of cycles, and both change the number of children at one node only.
-/

namespace BrittleKernel

/-- Some nodes, and a parent pointer for each. -/
structure Forest (ι : Type*) where
  nodes : Finset ι
  parent : ι → Option ι

namespace Forest

variable {ι : Type*} {f : Forest ι} {x p : ι} {q : Option ι}

/-- Node `x` points at `p`. -/
def Child (f : Forest ι) (x p : ι) : Prop := x ∈ f.nodes ∧ f.parent x = some p

/-- Parents are nodes, and every node is further from the roots than its parent. -/
structure Sound (f : Forest ι) : Prop where
  parent : ∀ {x p}, f.Child x p → p ∈ f.nodes
  ranked : ∃ rank : ι → Nat, ∀ x p, f.Child x p → rank p < rank x

/-! ## Ancestors -/

/-- No node is its own ancestor. -/
theorem Sound.acyclic (h : f.Sound) (x : ι) : ¬Relation.TransGen f.Child x x := by
  obtain ⟨rank, hrank⟩ := h.ranked
  -- Induction along the chain: the rank goes down at every pointer.
  have hdown : ∀ y, Relation.TransGen f.Child x y → rank y < rank x := by
    intro y hy
    induction hy with
    | single hxy => exact hrank _ _ hxy
    | tail _ hyz ih => exact (hrank _ _ hyz).trans ih
  intro hcycle
  exact lt_irrefl _ (hdown x hcycle)

/-- Above every node there is a root. -/
theorem Sound.exists_root (h : f.Sound) (hx : x ∈ f.nodes) :
    ∃ r ∈ f.nodes, f.parent r = none ∧ Relation.ReflTransGen f.Child x r := by
  obtain ⟨rank, hrank⟩ := h.ranked
  -- Strong induction on the rank: the parent is closer to the roots.
  induction hn : rank x using Nat.strong_induction_on generalizing x with
  | _ n ih =>
    cases hparent : f.parent x with
    | none => exact ⟨x, hx, hparent, .refl⟩
    | some p =>
      have hchild : f.Child x p := ⟨hx, hparent⟩
      obtain ⟨r, hr, hroot, hpath⟩ := ih (rank p) (hn ▸ hrank _ _ hchild) (h.parent hchild) rfl
      exact ⟨r, hr, hroot, .head hchild hpath⟩

/-! ## Children -/

variable [DecidableEq ι]

/-- The nodes that point at `p`. -/
def children (f : Forest ι) (p : ι) : Finset ι := f.nodes.filter fun x => f.parent x = some p

/-- A new node. -/
def plant (f : Forest ι) (x : ι) (q : Option ι) : Forest ι :=
  ⟨insert x f.nodes, Function.update f.parent x q⟩

/-- One node less; its pointer is cleared. -/
def fell (f : Forest ι) (x : ι) : Forest ι := ⟨f.nodes.erase x, Function.update f.parent x none⟩

theorem mem_children : x ∈ f.children p ↔ f.Child x p := Finset.mem_filter

/-! ## Planting -/

theorem child_plant (hx : x ∉ f.nodes) {y : ι} :
    (f.plant x q).Child y p ↔ f.Child y p ∨ y = x ∧ q = some p := by
  by_cases hy : y = x
  · subst hy
    simp [Child, plant, hx]
  · simp [Child, plant, hy]

theorem Sound.plant (h : f.Sound) (hx : x ∉ f.nodes) (hq : ∀ p, q = some p → p ∈ f.nodes) :
    (f.plant x q).Sound where
  parent := by
    intro y p hchild
    rcases (child_plant hx).mp hchild with hold | ⟨-, hnew⟩
    · exact Finset.mem_insert_of_mem (h.parent hold)
    · exact Finset.mem_insert_of_mem (hq p hnew)
  ranked := by
    obtain ⟨rank, hrank⟩ := h.ranked
    -- The new node is one step further out than the node it is planted under.
    refine ⟨Function.update rank x (q.elim 0 rank + 1), fun y p hchild => ?_⟩
    have hne : ∀ z ∈ f.nodes, z ≠ x := by
      rintro z hz rfl
      exact hx hz
    rcases (child_plant hx).mp hchild with hold | ⟨rfl, rfl⟩
    · rw [Function.update_of_ne (hne p (h.parent hold)), Function.update_of_ne (hne y hold.1)]
      exact hrank y p hold
    · rw [Function.update_of_ne (hne p (hq p rfl)), Function.update_self]
      exact Nat.lt_succ_self _

theorem card_children_plant (hx : x ∉ f.nodes) (p : ι) :
    ((f.plant x q).children p).card = (f.children p).card + if q = some p then 1 else 0 := by
  have hx' : x ∉ f.children p := fun hmem => hx (mem_children.mp hmem).1
  split
  next hq =>
    have heq : (f.plant x q).children p = insert x (f.children p) := by
      ext y
      rw [mem_children, child_plant hx, Finset.mem_insert, mem_children]
      tauto
    rw [heq, Finset.card_insert_of_notMem hx']
  next hq =>
    have heq : (f.plant x q).children p = f.children p := by
      ext y
      rw [mem_children, child_plant hx, mem_children]
      tauto
    rw [heq, Nat.add_zero]

/-- A new node has no children. -/
theorem children_plant_self (h : f.Sound) (hx : x ∉ f.nodes) (hq : ∀ p, q = some p → p ∈ f.nodes) :
    (f.plant x q).children x = ∅ := by
  apply Finset.eq_empty_of_forall_notMem
  intro y hy
  rcases (child_plant hx).mp (mem_children.mp hy) with hold | ⟨-, hnew⟩
  · exact hx (h.parent hold)
  · exact hx (hq x hnew)

/-! ## Felling -/

theorem child_fell {y : ι} : (f.fell x).Child y p ↔ y ≠ x ∧ f.Child y p := by
  by_cases hy : y = x
  · subst hy
    simp [Child, fell]
  · simp [Child, fell, hy]

theorem Sound.fell (h : f.Sound) (hleaf : f.children x = ∅) : (f.fell x).Sound where
  parent := by
    intro y p hchild
    obtain ⟨-, hold⟩ := child_fell.mp hchild
    have hne : p ≠ x := by
      rintro rfl
      exact Finset.notMem_empty y (hleaf ▸ mem_children.mpr hold)
    exact Finset.mem_erase.mpr ⟨hne, h.parent hold⟩
  ranked := by
    obtain ⟨rank, hrank⟩ := h.ranked
    exact ⟨rank, fun y p hchild => hrank y p (child_fell.mp hchild).2⟩

theorem card_children_fell (hx : x ∈ f.nodes) (p : ι) :
    (f.children p).card = ((f.fell x).children p).card + if f.parent x = some p then 1 else 0 := by
  have herase : (f.fell x).children p = (f.children p).erase x := by
    ext y
    rw [mem_children, child_fell, Finset.mem_erase, mem_children]
  rw [herase]
  split
  next hp => exact (Finset.card_erase_add_one (mem_children.mpr ⟨hx, hp⟩)).symm
  next hp =>
    have hnot : x ∉ f.children p := fun hmem => hp (mem_children.mp hmem).2
    rw [Finset.erase_eq_of_notMem hnot, Nat.add_zero]

end Forest

end BrittleKernel
