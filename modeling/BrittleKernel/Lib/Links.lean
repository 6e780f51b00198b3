import Mathlib.Data.List.Nodup

/-!
# Chains of Links

Lists that are threaded through a link in each node, as a relation between the links and the
sequence of nodes they pass through.
-/

namespace Links

variable {α : Type*}

/-- From `a` on, the links pass through the nodes of the list and arrive at `b`. -/
def Follows (next : α → α) : α → List α → α → Prop
  | a, [], b => a = b
  | a, x :: xs, b => a = x ∧ Follows next (next x) xs b

variable {next next' : α → α} {a b c x : α} {xs ys : List α}

@[simp] theorem follows_nil : Follows next a [] b ↔ a = b := Iff.rfl

@[simp] theorem follows_cons :
    Follows next a (x :: xs) b ↔ a = x ∧ Follows next (next x) xs b := Iff.rfl

/-- A chain through an append, split at the seam. -/
theorem follows_append :
    Follows next a (xs ++ ys) b ↔ ∃ m, Follows next a xs m ∧ Follows next m ys b := by
  induction xs generalizing a with
  | nil => simp
  | cons x xs ih => simp [ih, and_assoc]

/-- Only the links of the nodes matter. -/
theorem Follows.congr (h : Follows next a xs b) (hnext : ∀ x ∈ xs, next' x = next x) :
    Follows next' a xs b := by
  induction xs generalizing a with
  | nil => exact h
  | cons x xs ih =>
    obtain ⟨rfl, hrest⟩ := h
    refine ⟨rfl, ?_⟩
    rw [hnext a List.mem_cons_self]
    exact ih hrest fun y hy => hnext y (List.mem_cons_of_mem a hy)

/-- The links determine the nodes. -/
theorem Follows.unique (h : Follows next a xs b) (h' : Follows next a ys b) (hxs : b ∉ xs)
    (hys : b ∉ ys) : xs = ys := by
  induction xs generalizing a ys with
  | nil =>
    obtain rfl := h
    cases ys with
    | nil => rfl
    | cons y ys =>
      obtain ⟨rfl, -⟩ := h'
      simp at hys
  | cons x xs ih =>
    obtain ⟨rfl, hrest⟩ := h
    cases ys with
    | nil =>
      obtain rfl := h'
      simp at hxs
    | cons y ys =>
      obtain ⟨rfl, hrest'⟩ := h'
      rw [ih hrest hrest' (fun h => hxs (List.mem_cons_of_mem _ h))
        (fun h => hys (List.mem_cons_of_mem _ h))]

/-- A chain that arrives at a node outside passes through each of its nodes once. -/
theorem Follows.nodup (h : Follows next a xs b) (hxs : b ∉ xs) : xs.Nodup := by
  induction xs generalizing a with
  | nil => exact List.nodup_nil
  | cons x xs ih =>
    obtain ⟨rfl, hrest⟩ := h
    have hb : b ∉ xs := fun h => hxs (List.mem_cons_of_mem _ h)
    refine List.nodup_cons.mpr ⟨fun ha => ?_, ih hrest hb⟩
    -- A second visit would have to take the same way to the end.
    obtain ⟨ys, zs, rfl⟩ := List.append_of_mem ha
    obtain ⟨m, -, rfl, hagain⟩ := follows_append.mp hrest
    have hsame := hrest.unique hagain hb fun h => hb (by simp [h])
    have hlength := congrArg List.length hsame
    simp at hlength
    omega

/-- Where a chain starts. -/
theorem Follows.start_eq (h : Follows next a xs b) : a = xs.headD b := by
  cases xs with
  | nil => exact h
  | cons x xs => exact h.1

end Links
