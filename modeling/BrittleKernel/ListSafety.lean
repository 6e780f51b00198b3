import BrittleKernel.Runs

/-!
# Lists and Bodies Agree

In every state between kernel entries each Context sits in exactly one seat, each
Interrupt is on at most one Gate's list of senders, and each linked item is on exactly one
list, in the sublist of its owner's priority.
-/

namespace BrittleKernel

open Hoare KState

/-- Where an item may be linked, by the kind of its owner. -/
def KState.Placed (s : KState) (l : ListId) : ItemRef → Prop
  | .ctxItem c => s.kind c = .context ∧
      (l = .runnable ∨ ∃ g, s.kind g = .gate ∧ l = .receivers g)
  | .senderItem c => s.kind c = .context ∧ ∃ g, s.kind g = .gate ∧ l = .senders g
  | .irqItem i => s.kind i = .interrupt ∧ ∃ g, s.kind g = .gate ∧ l = .senders g

/-- Lists, items and bodies agree. -/
structure KState.ListsSound (s : KState) : Prop where
  context : ∀ c, s.kind c = .context → ∃! seat, s.Sits c seat
  interrupt : ∀ i, s.kind i = .interrupt → ∃! g, s.Queued i g
  /-- An item is linked exactly where its own fields say, which is one list at most. -/
  linked : ∀ r l p, r ∈ s.queues l p ↔ s.item r = ⟨some l, some (l, p)⟩
  /-- An item that is on no list has no links left. -/
  unlinked : ∀ r, (∀ l p, r ∉ s.queues l p) → s.item r = {}
  once : ∀ l p, (s.queues l p).Nodup
  owner : ∀ r l p, r ∈ s.queues l p → r.owner < s.count ∧ s.Placed l r ∧ p = s.ownerPriority r

namespace KState

variable {s : KState}

/-- The list that an item is on is written in the item; its sublist is the owner's priority. -/
theorem WellFormed.item_on (h : s.WellFormed) (r : ItemRef) :
    ∃ l, s.item r = Item.on l (s.ownerPriority r) ∧ ∀ l', l = some l' → s.Placed l' r := by
  cases r with
  | ctxItem c =>
    obtain ⟨seat, hseat⟩ := h.context c
    refine ⟨seat.ctxList, hseat.body.ctxItem, fun l hl => ?_⟩
    refine ⟨hseat.kind (by rintro rfl; simp [Seat.ctxList] at hl), ?_⟩
    cases seat with
    | runnable => exact .inl (Option.some.inj hl).symm
    | receiving g => exact .inr ⟨g, hseat.gate g rfl, (Option.some.inj hl).symm⟩
    | stopped | sending | awaiting => simp [Seat.ctxList] at hl
  | senderItem c =>
    obtain ⟨seat, hseat⟩ := h.context c
    refine ⟨seat.senderList, hseat.body.senderItem, fun l hl => ?_⟩
    refine ⟨hseat.kind (by rintro rfl; simp [Seat.senderList] at hl), ?_⟩
    cases seat with
    | sending g => exact ⟨g, hseat.gate g rfl, (Option.some.inj hl).symm⟩
    | stopped | runnable | receiving | awaiting => simp [Seat.senderList] at hl
  | irqItem i =>
    obtain ⟨q, hq⟩ := h.interrupt i
    refine ⟨q.map .senders, hq.item, fun l hl => ?_⟩
    cases q with
    | none => simp at hl
    | some g => exact ⟨hq.kind (by simp), g, hq.gate g rfl, (Option.some.inj hl).symm⟩

theorem WellFormed.listsSound (h : s.WellFormed) : s.ListsSound where
  context c _ := by
    obtain ⟨seat, hseat⟩ := h.context c
    exact ⟨seat, hseat, fun _ hother => hother.unique hseat⟩
  interrupt i _ := by
    obtain ⟨g, hg⟩ := h.interrupt i
    exact ⟨g, hg, fun _ hother => hother.unique hg⟩
  linked r l p := by
    obtain ⟨l', hitem, -⟩ := h.item_on r
    rw [h.threaded.mem_iff, hitem]
    cases l' <;> simp [Item.on]
  unlinked r hr := by
    obtain ⟨l', hitem, -⟩ := h.item_on r
    cases l' with
    | none => exact hitem
    | some l' =>
      refine absurd ((h.threaded.mem_iff l' (s.ownerPriority r) r).mpr ?_) (hr _ _)
      rw [hitem]
      rfl
  once l p := h.threaded.nodup (l, p)
  owner r l p hr := by
    obtain ⟨l', hitem, hplaced⟩ := h.item_on r
    rw [h.threaded.mem_iff, hitem] at hr
    cases l' with
    | none => simp at hr
    | some l' =>
      obtain ⟨rfl, rfl⟩ : l' = l ∧ s.ownerPriority r = p := by simpa using hr
      refine ⟨h.inTable r.owner ?_, hplaced l' rfl, rfl⟩
      have := hplaced l' rfl
      cases r <;> simp_all [Placed, ItemRef.owner]

end KState

end BrittleKernel
