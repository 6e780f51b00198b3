import BrittleKernel.Frame
import BrittleKernel.Lib.Intrusive

/-!
# Seats

The abstract scheduler state.  Between kernel operations every Context sits in one of five
places, and the place fixes its state field and both of its list items.  Moving a Context
from one seat to another is a single update, of which the kernel's list operations are the
steps.
-/

namespace BrittleKernel

/-! ## Seats of a Context -/

/-- Where a Context is between kernel operations. -/
inductive Seat where
  | stopped
  | runnable
  | sending (gate : TableIndex)
  | receiving (gate : TableIndex)
  | awaiting
deriving DecidableEq

namespace Seat

def state : Seat → CtxState
  | stopped => .stopped
  | runnable => .runnable
  | sending _ => .sending
  | receiving _ => .receiving
  | awaiting => .receiving

/-- The list that holds `ctx_item`. -/
def ctxList : Seat → Option ListId
  | runnable => some .runnable
  | receiving g => some (.receivers g)
  | _ => none

/-- The list that holds `sender_item`. -/
def senderList : Seat → Option ListId
  | sending g => some (.senders g)
  | _ => none

/-- The Gate that the Context waits at. -/
def gate : Seat → Option TableIndex
  | sending g => some g
  | receiving g => some g
  | _ => none

end Seat

/-- The fields of an item that is on the given list, or on none. -/
def Item.on (l : Option ListId) (p : Priority) : Item := ⟨l, l.map (·, p)⟩

@[simp] theorem Item.on_none (p : Priority) : Item.on none p = {} := rfl

@[simp] theorem Item.on_some (l : ListId) (p : Priority) :
    Item.on (some l) p = ⟨some l, some (l, p)⟩ := rfl

/-- A Context's body is as its seat demands. -/
structure Seated (b : Context) (seat : Seat) : Prop where
  state : b.state = seat.state
  ctxItem : b.ctxItem = Item.on seat.ctxList b.priority
  senderItem : b.senderItem = Item.on seat.senderList b.priority

/-- A body fits at most one seat. -/
theorem Seated.unique {b : Context} {seat seat' : Seat} (h : Seated b seat)
    (h' : Seated b seat') : seat = seat' := by
  have hstate : seat.state = seat'.state := h.state.symm.trans h'.state
  have hctx := congrArg Item.container (h.ctxItem.symm.trans h'.ctxItem)
  have hsender := congrArg Item.container (h.senderItem.symm.trans h'.senderItem)
  cases seat <;> cases seat' <;>
    simp_all [Seat.state, Seat.ctxList, Seat.senderList, Item.on]

/-! ## Threading -/

namespace KState

/-- Items and lists agree on who is where. -/
def Threaded (s : KState) : Prop :=
  Intrusive.Consistent (fun r => (s.item r).ring) fun q : ListId × Priority => s.queues q.1 q.2

variable {s : KState}

theorem Threaded.mem_iff (h : s.Threaded) (l : ListId) (p : Priority) (r : ItemRef) :
    r ∈ s.queues l p ↔ (s.item r).ring = some (l, p) :=
  Intrusive.Consistent.mem_iff h (l, p) r

theorem Threaded.not_mem (h : s.Threaded) {r : ItemRef} (hr : (s.item r).ring = none)
    (l : ListId) (p : Priority) : r ∉ s.queues l p :=
  Intrusive.Consistent.not_mem_of_loose h hr (l, p)

/-- Threading only depends on items and lists. -/
theorem Threaded.congr {s' : KState} (h : s.Threaded) (hitem : s'.item = s.item)
    (hqueues : s'.queues = s.queues) : s'.Threaded := by
  simpa only [Threaded, hitem, hqueues] using h

/-! ## Taking and leaving a seat -/

/-- Take a Context off its lists and put it in another seat. -/
def reseat (s : KState) (c : TableIndex) (seat : Seat) : KState :=
  let b := s.context c
  { s with
    context := Function.update s.context c
      { b with
        state := seat.state
        ctxItem := Item.on seat.ctxList b.priority
        senderItem := Item.on seat.senderList b.priority }
    queues := fun l p =>
      ((s.queues l p).erase (.ctxItem c)).erase (.senderItem c)
        ++ (if seat.ctxList = some l ∧ p = b.priority then [.ctxItem c] else [])
        ++ (if seat.senderList = some l ∧ p = b.priority then [.senderItem c] else []) }

/-- Take an Interrupt off its list and put it on another, or on none. -/
def requeue (s : KState) (i : TableIndex) (l : Option ListId) : KState :=
  let b := s.interrupt i
  { s with
    interrupt := Function.update s.interrupt i { b with senderItem := Item.on l b.priority }
    queues := fun l' p =>
      (s.queues l' p).erase (.irqItem i)
        ++ if l = some l' ∧ p = b.priority then [.irqItem i] else [] }

@[simp] theorem objects_reseat (c : TableIndex) (seat : Seat) :
    (s.reseat c seat).objects = s.objects := rfl

@[simp] theorem objects_requeue (i : TableIndex) (l : Option ListId) :
    (s.requeue i l).objects = s.objects := rfl

theorem item_reseat (c : TableIndex) (seat : Seat) :
    (s.reseat c seat).item =
      Function.update (Function.update s.item (.ctxItem c)
        (Item.on seat.ctxList (s.context c).priority))
        (.senderItem c) (Item.on seat.senderList (s.context c).priority) := by
  funext r
  cases r with
  | ctxItem x | senderItem x =>
    by_cases hx : x = c
    · subst hx; simp [item, reseat]
    · simp [item, reseat, hx]
  | irqItem i => simp [item, reseat]

theorem item_requeue (i : TableIndex) (l : Option ListId) :
    (s.requeue i l).item =
      Function.update s.item (.irqItem i) (Item.on l (s.interrupt i).priority) := by
  funext r
  cases r with
  | ctxItem x | senderItem x => simp [item, requeue]
  | irqItem x =>
    by_cases hx : x = i
    · subst hx; simp [item, requeue]
    · simp [item, requeue, hx]

/-- Attaching a loose item keeps items and lists in agreement, whether or not there is a
list to attach it to. -/
private theorem attachOn {link : ItemRef → Option (ListId × Priority)}
    {members : ListId × Priority → List ItemRef} (h : Intrusive.Consistent link members)
    {r : ItemRef} (hr : link r = none) (l : Option ListId) (p : Priority) :
    Intrusive.Consistent (Function.update link r (l.map (·, p)))
      fun q => members q ++ if l = some q.1 ∧ q.2 = p then [r] else [] := by
  cases l with
  | none => simpa [← hr] using h
  | some l =>
    have hmembers : (fun q : ListId × Priority =>
        members q ++ if some l = some q.1 ∧ q.2 = p then [r] else []) =
        fun q => members q ++ if q = (l, p) then [r] else [] := by
      funext ⟨l', p'⟩
      simp [@eq_comm _ l]
    exact hmembers ▸ h.attach hr (l, p)

theorem Threaded.reseat (h : s.Threaded) (c : TableIndex) (seat : Seat) :
    (s.reseat c seat).Threaded := by
  have h₁ := Intrusive.Consistent.detach h (.ctxItem c)
  have h₂ := h₁.detach (.senderItem c)
  have h₃ := attachOn h₂ (r := .ctxItem c) (by simp) seat.ctxList (s.context c).priority
  have h₄ := attachOn h₃ (r := .senderItem c) (by simp) seat.senderList (s.context c).priority
  refine Intrusive.Consistent.congr_link h₄ fun r => ?_
  rw [item_reseat]
  by_cases hr : r = .senderItem c
  · subst hr; simp [Item.on]
  · by_cases hr' : r = .ctxItem c
    · subst hr'; simp [Item.on]
    · simp [hr, hr']

theorem Threaded.requeue (h : s.Threaded) (i : TableIndex) (l : Option ListId) :
    (s.requeue i l).Threaded := by
  have h₁ := Intrusive.Consistent.detach h (.irqItem i)
  have h₂ := attachOn h₁ (r := .irqItem i) (by simp) l (s.interrupt i).priority
  refine Intrusive.Consistent.congr_link h₂ fun r => ?_
  rw [item_requeue]
  by_cases hr : r = .irqItem i
  · subst hr; simp [Item.on]
  · simp [hr]

end KState

end BrittleKernel
