import Mathlib.Logic.Function.Basic
import BrittleKernel.Lib.Links

/-!
# Rings of Links

Circular lists with links both ways.  The forward links lead from the root through the nodes in
order and back to the root, and the backward links do so in reverse.
-/

namespace Links

variable {α : Type*}

/-- The links lead from the root through the nodes and back. -/
def Circle (next : α → α) (root : α) (xs : List α) : Prop := Follows next (next root) xs root

/-- The forward and the backward links of a circular list. -/
structure Ring (next prev : α → α) (root : α) (xs : List α) : Prop where
  forward : Circle next root xs
  backward : Circle prev root xs.reverse

variable {next next' prev prev' : α → α} {root x : α} {xs ys : List α}

/-! ## One direction -/

theorem Circle.congr (h : Circle next root xs) (hnext : ∀ y ∈ root :: xs, next' y = next y) :
    Circle next' root xs := by
  rw [Circle, hnext root List.mem_cons_self]
  exact Follows.congr h fun y hy => hnext y (List.mem_cons_of_mem root hy)

theorem Circle.next_root (h : Circle next root xs) : next root = xs.headD root :=
  Follows.start_eq h

theorem Circle.next_eq (h : Circle next root (xs ++ x :: ys)) : next x = ys.headD root := by
  obtain ⟨m, -, rfl, hrest⟩ := follows_append.mp h
  exact hrest.start_eq

theorem circle_iff : Circle next root xs ↔ Follows next root (root :: xs) root := by
  simp [Circle]

theorem Ring.congr (h : Ring next prev root xs) (hnext : ∀ y ∈ root :: xs, next' y = next y)
    (hprev : ∀ y ∈ root :: xs, prev' y = prev y) : Ring next' prev' root xs where
  forward := h.forward.congr hnext
  backward := h.backward.congr fun y hy => hprev y (by simpa using hy)

theorem Ring.prev_root (h : Ring next prev root xs) : prev root = xs.getLastD root := by
  rw [h.backward.next_root]
  simp

theorem Ring.prev_eq (h : Ring next prev root (xs ++ x :: ys)) : prev x = xs.getLastD root := by
  have hback := h.backward
  rw [List.reverse_append, List.reverse_cons, List.append_assoc] at hback
  rw [hback.next_eq]
  simp

/-- The last node, or the root if there is none. -/
theorem exists_append_last (root : α) (xs : List α) :
    ∃ pre, root :: xs = pre ++ [xs.getLastD root] := by
  induction xs generalizing root with
  | nil => exact ⟨[], rfl⟩
  | cons y ys ih =>
    obtain ⟨pre, hpre⟩ := ih y
    refine ⟨root :: pre, ?_⟩
    rw [List.getLastD_cons, List.cons_append, ← hpre]

variable [DecidableEq α]

/-- The last node of a chain leads somewhere else. -/
theorem Follows.redirect {a b c : α} (h : Follows next a (xs ++ [x]) b) (hx : x ∉ xs) :
    Follows (Function.update next x c) a (xs ++ [x]) c := by
  obtain ⟨m, hbefore, rfl, -⟩ := follows_append.mp h
  apply follows_append.mpr
  refine ⟨m, ?_, rfl, Function.update_self _ _ _⟩
  apply hbefore.congr
  intro y hy
  apply Function.update_of_ne
  rintro rfl
  exact hx hy

/-- The node before `x` leads past it. -/
theorem Circle.remove (h : Circle next root (xs ++ x :: ys)) (hnodup : (root :: (xs ++ x :: ys)).Nodup) :
    Circle (Function.update next (xs.getLastD root) (next x)) root (xs ++ ys) := by
  obtain ⟨pre, hpre⟩ := exists_append_last root xs
  generalize xs.getLastD root = a at hpre
  rw [circle_iff, ← List.cons_append, hpre] at h
  rw [← List.cons_append, hpre] at hnodup
  rw [circle_iff, ← List.cons_append, hpre]
  obtain ⟨m, hbefore, rfl, hafter⟩ := follows_append.mp h
  have ha : a ∉ pre := by
    have := (List.nodup_append.mp (List.nodup_append.mp hnodup).1).2.2
    intro hmem
    exact this a hmem a (by simp) rfl
  apply follows_append.mpr
  refine ⟨next m, hbefore.redirect ha, ?_⟩
  apply hafter.congr
  intro y hy
  apply Function.update_of_ne
  rintro rfl
  exact (List.nodup_append.mp hnodup).2.2 y (by simp) y (List.mem_cons_of_mem m hy) rfl

/-- A new last node. -/
theorem Circle.append (h : Circle next root xs) (hnodup : (root :: xs).Nodup) (hx : x ∉ root :: xs) :
    Circle (Function.update (Function.update next x root) (xs.getLastD root) x) root (xs ++ [x]) := by
  obtain ⟨pre, hpre⟩ := exists_append_last root xs
  generalize xs.getLastD root = a at hpre
  rw [circle_iff, hpre] at h
  rw [hpre] at hnodup hx
  rw [circle_iff, ← List.cons_append, hpre]
  have ha : a ∉ pre := by
    intro hmem
    exact (List.nodup_append.mp hnodup).2.2 a hmem a (by simp) rfl
  have hother : ∀ y ∈ pre ++ [a], Function.update next x root y = next y := by
    intro y hy
    apply Function.update_of_ne
    rintro rfl
    exact hx hy
  apply follows_append.mpr
  refine ⟨x, (h.congr hother).redirect ha, rfl, ?_⟩
  rw [Function.update_of_ne, Function.update_self]
  · rfl
  · rintro rfl
    exact hx (by simp)

/-- A new first node. -/
theorem Circle.cons (h : Circle next root xs) (hroot : root ∉ xs) (hx : x ∉ root :: xs) :
    Circle (Function.update (Function.update next x (next root)) root x) root (x :: xs) := by
  have hne : x ≠ root := fun heq => hx (by simp [heq])
  rw [Circle, Function.update_self]
  refine ⟨rfl, ?_⟩
  rw [Function.update_of_ne hne, Function.update_self]
  apply Follows.congr h
  intro y hy
  have hyroot : y ≠ root := by
    rintro rfl
    exact hroot hy
  have hyx : y ≠ x := by
    rintro rfl
    exact hx (List.mem_cons_of_mem root hy)
  rw [Function.update_of_ne hyroot, Function.update_of_ne hyx]

/-! ## Both directions -/

/-- A node is taken out of the ring. -/
theorem Ring.remove (h : Ring next prev root (xs ++ x :: ys))
    (hnodup : (root :: (xs ++ x :: ys)).Nodup) :
    Ring (Function.update next (prev x) (next x)) (Function.update prev (next x) (prev x)) root
      (xs ++ ys) := by
  constructor
  · rw [h.prev_eq]
    exact h.forward.remove hnodup
  · have hback := h.backward
    have hlast : next x = ys.reverse.getLastD root := by
      rw [h.forward.next_eq]
      simp
    rw [List.reverse_append, List.reverse_cons, List.append_assoc] at hback
    rw [hlast, List.reverse_append]
    apply hback.remove
    have hreverse : (root :: (xs ++ x :: ys).reverse).Nodup := by
      rw [List.nodup_cons, List.mem_reverse, List.nodup_reverse]
      exact List.nodup_cons.mp hnodup
    rw [List.reverse_append, List.reverse_cons, List.append_assoc] at hreverse
    exact hreverse

/-- A node becomes the last of the ring. -/
theorem Ring.append (h : Ring next prev root xs) (hnodup : (root :: xs).Nodup)
    (hx : x ∉ root :: xs) :
    Ring (Function.update (Function.update next x root) (prev root) x)
      (Function.update (Function.update prev x (prev root)) root x) root (xs ++ [x]) := by
  constructor
  · rw [h.prev_root]
    exact h.forward.append hnodup hx
  · rw [List.reverse_append]
    apply h.backward.cons
    · simpa using (List.nodup_cons.mp hnodup).1
    · simpa using hx

end Links
