import Mathlib.Data.List.Nodup
import Mathlib.Logic.Function.Basic

/-!
# Intrusive Lists

Items that carry a link to the ring they are threaded on, and rings that hold items.  The
two sides are kept consistent by detaching an item from its ring and attaching a loose
item to the end of a ring.
-/

namespace Intrusive

variable {Item Ring : Type}

/-- Every ring holds exactly the items whose link names it, each of them once. -/
structure Consistent (link : Item → Option Ring) (members : Ring → List Item) : Prop where
  mem_iff : ∀ q r, r ∈ members q ↔ link r = some q
  nodup : ∀ q, (members q).Nodup

namespace Consistent

variable {link : Item → Option Ring} {members : Ring → List Item}

theorem congr_link (h : Consistent link members) {link' : Item → Option Ring}
    (hlink : ∀ r, link' r = link r) : Consistent link' members :=
  (funext hlink : link' = link) ▸ h

theorem not_mem_of_loose (h : Consistent link members) {r : Item} (hr : link r = none)
    (q : Ring) : r ∉ members q := by
  simp [h.mem_iff, hr]

variable [DecidableEq Item]

/-- A detached item is on no ring any more. -/
theorem detach (h : Consistent link members) (r : Item) :
    Consistent (Function.update link r none) fun q => (members q).erase r := by
  refine ⟨fun q x => ?_, fun q => (h.nodup q).erase r⟩
  rw [(h.nodup q).mem_erase_iff, h.mem_iff]
  by_cases hx : x = r
  · simp [hx]
  · simp [hx]

/-- A loose item attached to a ring becomes its last member. -/
theorem attach [DecidableEq Ring] (h : Consistent link members) {r : Item} (hr : link r = none) (q : Ring) :
    Consistent (Function.update link r (some q))
      fun q' => members q' ++ if q' = q then [r] else [] := by
  have hloose := h.not_mem_of_loose hr
  refine ⟨fun q' x => ?_, fun q' => ?_⟩
  · by_cases hx : x = r
    · subst hx
      by_cases hq : q' = q
      · simp [hq]
      · simp [hq, hloose, Ne.symm hq]
    · by_cases hq : q' = q <;> simp [hq, hx, h.mem_iff]
  · by_cases hq : q' = q
    · have := h.nodup q'
      simp only [hq, if_true] at this ⊢
      exact List.Nodup.append this (List.nodup_singleton r) (by simpa using hloose q)
    · simpa [hq] using h.nodup q'

end Consistent

end Intrusive
