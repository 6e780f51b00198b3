import Mathlib.Data.List.Basic
import Mathlib.Data.List.Nodup

/-!
# First In, First Out

Lists that members leave at any place and join at the end only.  In a run of such operations
nobody is overtaken: whoever stands behind a member that joined during the run has joined
during it, too.
-/

namespace Fifo

variable {α : Type}

/-- One operation: some members stay, in their order, and behind them stand those that join.
A member joins if it was not on the list, or if the operation takes it off and puts it back. -/
def Advances (again : α → Prop) (q q' : List α) : Prop :=
  ∃ stay join, q' = stay ++ join ∧ stay.Sublist q ∧ (∀ a ∈ stay, ¬again a) ∧
    ∀ a ∈ join, a ∉ q ∨ again a

/-- Those that join in an operation. -/
def Joins (again : α → Prop) (q q' : List α) (a : α) : Prop := a ∈ q' ∧ (a ∉ q ∨ again a)

/-- A sequence of operations, with those that join in some of them. -/
inductive Run : List α → (α → Prop) → List α → Prop where
  | start (q : List α) : Run q (fun _ => False) q
  | step {q q₁ q₂ : List α} {joined again : α → Prop} : Run q joined q₁ → Advances again q₁ q₂ →
      Run q (fun a => joined a ∨ Joins again q₁ q₂ a) q₂

namespace Advances

theorem refl (q : List α) : Advances (fun _ => False) q q :=
  ⟨q, [], by simp, .refl q, fun _ _ h => h, by simp⟩

/-- Only leaving. -/
theorem leave {q stay : List α} (h : stay.Sublist q) : Advances (fun _ => False) q stay :=
  ⟨stay, [], by simp, h, fun _ _ h => h, by simp⟩

/-- Some leave, and others that were not there join. -/
theorem join {q stay new : List α} (h : stay.Sublist q) (hnew : ∀ a ∈ new, a ∉ q) :
    Advances (fun _ => False) q (stay ++ new) :=
  ⟨stay, new, rfl, h, fun _ _ h => h, fun a ha => .inl (hnew a ha)⟩

/-- Those that stay keep their order and were not behind anyone who joins. -/
theorem order {again : α → Prop} {q q' : List α} (h : Advances again q q') {a b : α}
    (hab : [a, b].Sublist q') : Joins again q q' b ∨ ¬Joins again q q' a ∧ [a, b].Sublist q := by
  obtain ⟨stay, join, rfl, hstay, hnot, hjoin⟩ := h
  obtain ⟨l₁, l₂, hsplit, h₁, h₂⟩ := List.sublist_append_iff.mp hab
  have hlast : b ∈ join → Joins again q (stay ++ join) b := fun hb =>
    ⟨List.mem_append_right _ hb, hjoin b hb⟩
  rcases l₁ with _ | ⟨x, _ | ⟨y, l⟩⟩
  · rw [List.nil_append] at hsplit
    exact .inl (hlast (h₂.subset (hsplit ▸ by simp)))
  · obtain ⟨rfl, rfl⟩ : a = x ∧ [b] = l₂ := by simpa using hsplit
    exact .inl (hlast (h₂.subset (by simp)))
  · -- Both were there before.
    obtain ⟨rfl, rfl, rfl, rfl⟩ : a = x ∧ b = y ∧ l = [] ∧ l₂ = [] := by simpa using hsplit
    refine .inr ⟨?_, h₁.trans hstay⟩
    rintro ⟨-, hnew | hagain⟩
    · exact hnew (hstay.subset (h₁.subset (by simp)))
    · exact hnot a (h₁.subset (by simp)) hagain

end Advances

/-- Nobody is overtaken. -/
theorem Run.order {q q' : List α} {joined : α → Prop} (h : Run q joined q') {a b : α}
    (hab : [a, b].Sublist q') (ha : joined a) : joined b := by
  induction h with
  | start => exact ha
  | step _ hop ih =>
    rcases hop.order hab with hb | ⟨hnot, hbefore⟩
    · exact .inr hb
    · rcases ha with ha | ha
      · exact .inl (ih hbefore ha)
      · exact absurd ha hnot

end Fifo
