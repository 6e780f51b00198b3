import BrittleKernel.Queue
import BrittleKernel.Lib.Hoare
import BrittleKernel.Lib.Rings

/-!
# Lists of Pointers

`k/list.h` with its links as they are in memory, for any number of lists and priorities, next to
what it is for: a queue for each priority, first come first served, from which items can be
removed.
-/

namespace BrittleKernel.Pointers

open Hoare Links

variable {L I T : Type}

/-! ## The lists in memory -/

/-- Where an `Itemoid *` points: to one of the roots of a list, or to an item. -/
inductive Itemoid (L I : Type) where
  | root (list : L) (priority : Nat)
  | item (it : I)
deriving DecidableEq

/-- The fields of all roots and items, and the priorities of the owners. -/
structure Store (L I T : Type) where
  next : Itemoid L I → Itemoid L I
  prev : Itemoid L I → Itemoid L I
  container : I → Option L
  owner : I → T
  priority : T → Nat

/-- Why an operation stops. -/
inductive Fault where
  | check (p : Panic)
  /-- A root was taken for an item. -/
  | badCast

abbrev M (L I T : Type) (α : Type) := EStateM Fault (Store L I T) α

/-- Newly constructed roots and items. -/
def Store.new (owner : I → T) (priority : T → Nat) : Store L I T where
  next := id
  prev := id
  container := fun _ => none
  owner := owner
  priority := priority

section

variable [DecidableEq L] [DecidableEq I]

namespace Store

variable (s : Store L I T)

def setNext (a b : Itemoid L I) : Store L I T := { s with next := Function.update s.next a b }

def setPrev (a b : Itemoid L I) : Store L I T := { s with prev := Function.update s.prev a b }

def setContainer (it : I) (l : Option L) : Store L I T :=
  { s with container := Function.update s.container it l }

end Store

def panicIf (c : Prop) [Decidable c] (p : Panic) : M L I T Unit :=
  if c then throw (.check p) else pure ()

/-- `Item::unlink`. -/
def unlink (it : I) : M L I T Unit := do
  modify fun s => s.setContainer it none
  modify fun s => s.setPrev (s.next (.item it)) (s.prev (.item it))
  modify fun s => s.setNext (s.prev (.item it)) (s.next (.item it))
  modify fun s => (s.setPrev (.item it) (.item it)).setNext (.item it) (.item it)

section

variable (n : Nat)

/-- `List::insert`. -/
def insert (l : L) (it : I) : M L I T Unit := do
  let s ← get
  panicIf ((s.container it).isSome = true) .nodeAlreadyInList
  panicIf (s.next (.item it) ≠ .item it ∨ s.prev (.item it) ≠ .item it) .corruptNode
  let p := s.priority (s.owner it)
  panicIf (¬p < n) .bogusPriority
  modify fun s => s.setPrev (.item it) (s.prev (.root l p))
  modify fun s => s.setNext (.item it) (.root l p)
  modify fun s => s.setContainer it (some l)
  -- `_roots[p].prev = _roots[p].prev->next = it`
  modify fun s => s.setNext (s.prev (.root l p)) (.item it)
  modify fun s => s.setPrev (.root l p) (.item it)

/-- `Item::reinsert`. -/
def reinsert (it : I) : M L I T Unit := do
  match (← get).container it with
  | none => throw (.check .reinsertWithoutInsert)
  | some c =>
    unlink it
    insert n c it

/-- `List::is_empty`. -/
def isEmpty (l : L) : M L I T Bool := do
  let s ← get
  return (List.range n).all fun p => s.next (.root l p) = .root l p

/-- The `static_cast` of a link to an item. -/
def toItem : Itemoid L I → M L I T I
  | .item it => pure it
  | .root _ _ => throw .badCast

/-- The first root of a list that does not link to itself. -/
def Store.firstRoot (s : Store L I T) (l : L) : Option Nat :=
  (List.range n).find? fun p => s.next (.root l p) ≠ .root l p

/-- `List::peek`. -/
def peek (l : L) : M L I T (Option I) := do
  let s ← get
  match s.firstRoot n l with
  | none => return none
  | some p => return some (← toItem (s.next (.root l p)))

/-- `List::take`. -/
def take (l : L) : M L I T (Option T) := do
  let s ← get
  match s.firstRoot n l with
  | none => return none
  | some p =>
    let it ← toItem (s.next (.root l p))
    unlink it
    return some ((← get).owner it)

end

end

/-! ## The queues they represent -/

/-- Each list's items by priority, in order of arrival. -/
structure Queues (L I T : Type) where
  seq : L → Nat → List I
  owner : I → T
  priority : T → Nat

namespace Queues

variable (q : Queues L I T)

def new (owner : I → T) (priority : T → Nat) : Queues L I T := ⟨fun _ _ => [], owner, priority⟩

section

variable [DecidableEq L] [DecidableEq I]

/-- The item arrives at a list, behind the others of its owner's priority. -/
def append (l : L) (it : I) : Queues L I T :=
  { q with
    seq := Function.update q.seq l (Function.update (q.seq l) (q.priority (q.owner it))
      (q.seq l (q.priority (q.owner it)) ++ [it])) }

/-- The item leaves whatever list it is on. -/
def remove (it : I) : Queues L I T := { q with seq := fun l p => (q.seq l p).erase it }

end

/-- The item is on the list. -/
def On (it : I) (l : L) : Prop := ∃ p, it ∈ q.seq l p

/-- The first item of the least priority that has any. -/
def First (n : Nat) (l : L) (it : I) : Prop :=
  ∃ p < n, (∀ p' < p, q.seq l p' = []) ∧ (q.seq l p).head? = some it

def Empty (n : Nat) (l : L) : Prop := ∀ p < n, q.seq l p = []

variable {q} {n : Nat} {l : L} {it it' : I}

theorem First.on (h : q.First n l it) : q.On it l := by
  obtain ⟨p, -, -, hhead⟩ := h
  exact ⟨p, List.mem_of_mem_head? hhead⟩

theorem First.unique (h : q.First n l it) (h' : q.First n l it') : it = it' := by
  obtain ⟨p, hp, hbefore, hhead⟩ := h
  obtain ⟨p', hp', hbefore', hhead'⟩ := h'
  -- A lesser priority with an item would come first.
  obtain hlt | rfl | hlt := Nat.lt_trichotomy p p'
  · simp [hbefore' p hlt] at hhead
  · rw [hhead] at hhead'
    injection hhead'
  · simp [hbefore p' hlt] at hhead'

theorem First.not_empty (h : q.First n l it) : ¬q.Empty n l := by
  obtain ⟨p, hp, -, hhead⟩ := h
  intro hempty
  simp [hempty p hp] at hhead

end Queues

/-- The operations, and changes of an owner's priority. -/
inductive Op (L I T : Type) where
  | insert (l : L) (it : I)
  | unlink (it : I)
  | reinsert (it : I)
  | take (l : L)
  | peek (l : L)
  | isEmpty (l : L)
  | setPriority (t : T) (p : Nat)

/-- What an operation returns. -/
inductive Result (I T : Type) where
  | done
  | owner (t : Option T)
  | item (it : Option I)
  | flag (b : Bool)

section

variable [DecidableEq L] [DecidableEq I] [DecidableEq T]

/-- What each operation means.  An operation that fails a check has no step. -/
inductive Step (n : Nat) : Queues L I T → Op L I T → Result I T → Queues L I T → Prop where
  | insert {q : Queues L I T} {l : L} {it : I} : (∀ l', ¬q.On it l') → q.priority (q.owner it) < n →
      Step n q (.insert l it) .done (q.append l it)
  | unlink {q : Queues L I T} {it : I} : Step n q (.unlink it) .done (q.remove it)
  | reinsert {q : Queues L I T} {l : L} {it : I} : q.On it l → q.priority (q.owner it) < n →
      Step n q (.reinsert it) .done ((q.remove it).append l it)
  | take {q : Queues L I T} {l : L} {it : I} : q.First n l it →
      Step n q (.take l) (.owner (some (q.owner it))) (q.remove it)
  | takeNone {q : Queues L I T} {l : L} : q.Empty n l → Step n q (.take l) (.owner none) q
  | peek {q : Queues L I T} {l : L} {it : I} : q.First n l it →
      Step n q (.peek l) (.item (some it)) q
  | peekNone {q : Queues L I T} {l : L} : q.Empty n l → Step n q (.peek l) (.item none) q
  | isEmpty {q : Queues L I T} {l : L} {b : Bool} : (b = true ↔ q.Empty n l) →
      Step n q (.isEmpty l) (.flag b) q
  | setPriority {q : Queues L I T} {t : T} {p : Nat} :
      Step n q (.setPriority t p) .done { q with priority := Function.update q.priority t p }

/-- An operation on the lists in memory. -/
def Op.run (n : Nat) : Op L I T → M L I T (Result I T)
  | .insert l it => do
    Pointers.insert n l it
    return .done
  | .unlink it => do
    Pointers.unlink it
    return .done
  | .reinsert it => do
    Pointers.reinsert n it
    return .done
  | .take l => return .owner (← Pointers.take n l)
  | .peek l => return .item (← Pointers.peek n l)
  | .isEmpty l => return .flag (← Pointers.isEmpty n l)
  | .setPriority t p => do
    modify fun s => { s with priority := Function.update s.priority t p }
    return .done

end

/-! ## Representation -/

/-- The links of the roots and items represent the queues. -/
structure Represents (n : Nat) (s : Store L I T) (q : Queues L I T) : Prop where
  owner : s.owner = q.owner
  priority : s.priority = q.priority
  /-- Each root's ring is its queue: forward in order of arrival, backward in reverse. -/
  ring : ∀ l p, p < n → Ring s.next s.prev (.root l p) ((q.seq l p).map .item)
  beyond : ∀ l p, n ≤ p → q.seq l p = []
  nodup : ∀ l p, (q.seq l p).Nodup
  /-- An item is in one queue at most. -/
  once : ∀ it l p l' p', it ∈ q.seq l p → it ∈ q.seq l' p' → l = l' ∧ p = p'
  container : ∀ it l, s.container it = some l ↔ q.On it l
  loose : ∀ it, s.container it = none → s.next (.item it) = .item it ∧ s.prev (.item it) = .item it

/-- The nodes of a ring. -/
def nodes (l : L) (p : Nat) (xs : List I) : List (Itemoid L I) := .root l p :: xs.map .item

section

variable {n : Nat} {s : Store L I T} {q : Queues L I T} {l : L} {it : I}

@[simp] theorem item_mem_nodes {p : Nat} {xs : List I} :
    Itemoid.item it ∈ nodes l p xs ↔ it ∈ xs := by
  simp [nodes]

@[simp] theorem root_mem_nodes {l' : L} {p p' : Nat} {xs : List I} :
    Itemoid.root l' p' ∈ nodes l p xs ↔ l' = l ∧ p' = p := by
  simp [nodes]

theorem nodup_nodes {p : Nat} {xs : List I} (h : xs.Nodup) : (nodes l p xs).Nodup := by
  refine List.nodup_cons.mpr ⟨by simp, h.map ?_⟩
  intro a b hab
  injection hab

namespace Represents

/-- Rings have no node in common. -/
theorem nodes_disjoint (h : Represents n s q) {l' : L} {p p' : Nat} {x : Itemoid L I}
    (hx : x ∈ nodes l p (q.seq l p)) (hx' : x ∈ nodes l' p' (q.seq l' p')) : l = l' ∧ p = p' := by
  cases x with
  | root l₀ p₀ =>
    obtain ⟨rfl, rfl⟩ := root_mem_nodes.mp hx
    exact root_mem_nodes.mp hx'
  | item it => exact h.once it l p l' p' (item_mem_nodes.mp hx) (item_mem_nodes.mp hx')

/-- The links of an item that is on a list stay in its ring. -/
theorem neighbours (h : Represents n s q) (hc : s.container it = some l) :
    ∃ p < n, it ∈ q.seq l p ∧ s.prev (.item it) ∈ nodes l p (q.seq l p) ∧
      s.next (.item it) ∈ nodes l p (q.seq l p) := by
  obtain ⟨p, hmem⟩ := (h.container it l).mp hc
  have hp : p < n := by
    by_contra hp
    rw [h.beyond l p (Nat.not_lt.mp hp)] at hmem
    simp at hmem
  obtain ⟨xs, ys, hseq⟩ := List.append_of_mem hmem
  have hring := h.ring l p hp
  rw [hseq, List.map_append, List.map_cons] at hring
  refine ⟨p, hp, hmem, ?_, ?_⟩
  · rw [hring.prev_eq, hseq, nodes, List.map_append]
    exact List.cons_subset_cons _ (List.subset_append_left _ _) List.getLastD_mem_cons
  · rw [hring.forward.next_eq, hseq, nodes]
    cases ys with
    | nil => simp
    | cons y ys => simp

/-- An item on no list. -/
theorem not_on_of_loose (h : Represents n s q) (hc : s.container it = none) (l : L) : ¬q.On it l := by
  intro hon
  rw [(h.container it l).mpr hon] at hc
  contradiction

theorem loose_of_not_on (h : Represents n s q) (hnot : ∀ l, ¬q.On it l) :
    s.container it = none := by
  cases hc : s.container it with
  | none => rfl
  | some l => exact absurd ((h.container it l).mp hc) (hnot l)

/-- A root links to the first item, or to itself. -/
theorem next_root (h : Represents n s q) {p : Nat} (hp : p < n) :
    s.next (.root l p) = ((q.seq l p).map .item).headD (.root l p) :=
  (h.ring l p hp).forward.next_root

theorem next_root_eq_iff (h : Represents n s q) {p : Nat} (hp : p < n) :
    s.next (.root l p) = .root l p ↔ q.seq l p = [] := by
  rw [h.next_root hp]
  cases q.seq l p with
  | nil => simp
  | cons x xs => simp

end Represents

/-- New lists are empty. -/
theorem represents_new (n : Nat) (owner : I → T) (priority : T → Nat) :
    Represents n (Store.new (L := L) owner priority) (Queues.new owner priority) where
  owner := rfl
  priority := rfl
  ring := fun l p hp => ⟨rfl, rfl⟩
  beyond := fun l p hp => rfl
  nodup := fun l p => List.nodup_nil
  once := fun it l p l' p' hmem => absurd hmem List.not_mem_nil
  container := fun it l => by simp [Store.new, Queues.new, Queues.On]
  loose := fun it hc => ⟨rfl, rfl⟩

end

/-! ## Unlink -/

section

variable [DecidableEq I] {n : Nat} {s : Store L I T} {q : Queues L I T} {l : L} {it : I}

theorem Queues.remove_seq (hnot : ¬q.On it l) : (q.remove it).seq l = q.seq l := by
  apply funext
  intro p
  apply List.erase_of_not_mem
  intro hmem
  exact hnot ⟨p, hmem⟩

theorem Represents.remove_of_loose (h : Represents n s q) (hc : s.container it = none) :
    q.remove it = q := by
  have hseq : (q.remove it).seq = q.seq := by
    apply funext
    intro l
    exact Queues.remove_seq (h.not_on_of_loose hc l)
  show { q with seq := (q.remove it).seq } = q
  rw [hseq]

variable [DecidableEq L] {E : Fault → Store L I T → Prop}

/-- The links after an item has been taken out. -/
def Store.unlinked (s : Store L I T) (it : I) : Store L I T :=
  { s with
    next := Function.update (Function.update s.next (s.prev (.item it)) (s.next (.item it)))
      (.item it) (.item it)
    prev := Function.update (Function.update s.prev (s.next (.item it)) (s.prev (.item it)))
      (.item it) (.item it)
    container := Function.update s.container it none }

theorem wp_unlink {Q : PUnit → Store L I T → Prop} :
    wp (unlink it) Q E s ↔ Q ⟨⟩ (s.unlinked it) := by
  -- The item's own link does not change until the last assignment.
  have hprev : Function.update s.prev (s.next (.item it)) (s.prev (.item it)) (.item it) =
      s.prev (.item it) := by
    by_cases hself : s.next (.item it) = .item it
    · rw [hself, Function.update_self]
    · rw [Function.update_of_ne (Ne.symm hself)]
  simp only [unlink, wp_bind, wp_modify, Store.setNext, Store.setPrev, Store.setContainer, hprev]
  rfl

/-- Unlinking an item on no list changes nothing. -/
theorem Represents.unlinked_of_loose (h : Represents n s q) (hc : s.container it = none) :
    s.unlinked it = s := by
  obtain ⟨hnext, hprev⟩ := h.loose it hc
  have hnext' : Function.update s.next (.item it) (.item it) = s.next := by
    rw [Function.update_eq_self_iff]
    exact hnext.symm
  have hprev' : Function.update s.prev (.item it) (.item it) = s.prev := by
    rw [Function.update_eq_self_iff]
    exact hprev.symm
  have hcontainer : Function.update s.container it none = s.container := by
    rw [Function.update_eq_self_iff]
    exact hc.symm
  rw [Store.unlinked, hnext, hprev, hnext', hnext', hprev', hprev', hcontainer]

theorem Store.unlinked_next {x : Itemoid L I} (hx : x ≠ s.prev (.item it)) (hit : x ≠ .item it) :
    (s.unlinked it).next x = s.next x := by
  show Function.update (Function.update s.next _ _) _ _ x = s.next x
  rw [Function.update_of_ne hit, Function.update_of_ne hx]

theorem Store.unlinked_prev {x : Itemoid L I} (hx : x ≠ s.next (.item it)) (hit : x ≠ .item it) :
    (s.unlinked it).prev x = s.prev x := by
  show Function.update (Function.update s.prev _ _) _ _ x = s.prev x
  rw [Function.update_of_ne hit, Function.update_of_ne hx]

/-- The ring that the item is taken out of. -/
theorem Represents.unlink_own (h : Represents n s q) {p : Nat} (hp : p < n)
    (hmem : it ∈ q.seq l p) :
    Ring (s.unlinked it).next (s.unlinked it).prev (.root l p) (((q.seq l p).erase it).map .item) := by
  obtain ⟨xs, ys, hseq⟩ := List.append_of_mem hmem
  have hnodup := h.nodup l p
  have hring := h.ring l p hp
  have hnodes := nodup_nodes (l := l) (p := p) hnodup
  rw [hseq] at hnodup hring hnodes ⊢
  rw [nodes, List.map_append, List.map_cons] at hnodes
  rw [List.map_append, List.map_cons] at hring
  have hxs : it ∉ xs := fun hx => (List.nodup_append.mp hnodup).2.2 it hx it (by simp) rfl
  have hys : it ∉ ys := (List.nodup_cons.mp (List.nodup_append.mp hnodup).2.1).1
  rw [List.erase_append_right _ hxs, List.erase_cons_head, List.map_append]
  have hother : ∀ y ∈ Itemoid.root l p :: (xs.map .item ++ ys.map .item), y ≠ .item it := by
    rintro y hy rfl
    simp [hxs, hys] at hy
  -- The item's own links come last.
  apply (hring.remove hnodes).congr
  · intro y hy
    exact Function.update_of_ne (hother y hy) _ _
  · intro y hy
    exact Function.update_of_ne (hother y hy) _ _

theorem Represents.unlink (h : Represents n s q) (it : I) :
    Represents n (s.unlinked it) (q.remove it) := by
  cases hc : s.container it with
  | none =>
    rw [h.unlinked_of_loose hc, h.remove_of_loose hc]
    exact h
  | some l =>
    obtain ⟨p, hp, hmem, hprev, hnext⟩ := h.neighbours hc
    constructor
    · exact h.owner
    · exact h.priority
    · intro l' p' hp'
      by_cases hsame : l' = l ∧ p' = p
      · obtain ⟨rfl, rfl⟩ := hsame
        exact h.unlink_own hp hmem
      · -- The links of another ring stay.
        have hother : ∀ {x : Itemoid L I}, x ∈ nodes l p (q.seq l p) →
            ∀ y ∈ nodes l' p' (q.seq l' p'), y ≠ x := by
          rintro x hx y hy rfl
          exact hsame (h.nodes_disjoint hy hx)
        have hit := hother (item_mem_nodes.mpr hmem)
        have hnot : it ∉ q.seq l' p' := fun hx => hit _ (item_mem_nodes.mpr hx) rfl
        have hseq : (q.remove it).seq l' p' = q.seq l' p' := List.erase_of_not_mem hnot
        rw [hseq]
        apply (h.ring l' p' hp').congr
        · intro y hy
          exact Store.unlinked_next (hother hprev y hy) (hit y hy)
        · intro y hy
          exact Store.unlinked_prev (hother hnext y hy) (hit y hy)
    · intro l' p' hp'
      show (q.seq l' p').erase it = []
      rw [h.beyond l' p' hp']
      rfl
    · intro l' p'
      exact (h.nodup l' p').erase it
    · intro x l₁ p₁ l₂ p₂ h₁ h₂
      exact h.once x l₁ p₁ l₂ p₂ (List.mem_of_mem_erase h₁) (List.mem_of_mem_erase h₂)
    · intro x l'
      show Function.update s.container it none x = some l' ↔ ∃ p, x ∈ (q.seq l' p).erase it
      by_cases hx : x = it
      · rw [hx, Function.update_self]
        simp [(h.nodup _ _).mem_erase_iff]
      · rw [Function.update_of_ne hx, h.container]
        simp [(h.nodup _ _).mem_erase_iff, hx, Queues.On]
    · intro x hx
      by_cases hxit : x = it
      · rw [hxit]
        exact ⟨Function.update_self _ _ _, Function.update_self _ _ _⟩
      · have hloose : s.container x = none := by
          rw [← hx]
          exact (Function.update_of_ne hxit _ _).symm
        have hself := h.loose x hloose
        have hnot : Itemoid.item x ∉ nodes l p (q.seq l p) := by
          intro hmem
          exact h.not_on_of_loose hloose l ⟨p, item_mem_nodes.mp hmem⟩
        have hother : ∀ {y : Itemoid L I}, y ∈ nodes l p (q.seq l p) → Itemoid.item x ≠ y := by
          rintro y hy rfl
          exact hnot hy
        have hit := hother (item_mem_nodes.mpr hmem)
        rw [Store.unlinked_next (hother hprev) hit, Store.unlinked_prev (hother hnext) hit]
        exact hself

end

/-! ## Insert -/

section

variable {n : Nat} {s : Store L I T} {q : Queues L I T} {l : L} {it : I}
  {E : Fault → Store L I T → Prop}

theorem wp_panicIf {c : Prop} [Decidable c] {p : Panic} {Q : PUnit → Store L I T → Prop} :
    wp (panicIf c p) Q E s ↔ if c then E (.check p) s else Q ⟨⟩ s := by
  unfold panicIf
  split
  · rw [wp_throw]
  · rw [wp_pure]

variable [DecidableEq L]

/-- The queue that an item joins, and no other, gets a new last item. -/
theorem Queues.append_seq {l' : L} {p : Nat} :
    (q.append l it).seq l' p =
      if l' = l ∧ p = q.priority (q.owner it) then q.seq l' p ++ [it] else q.seq l' p := by
  by_cases hl : l' = l
  · by_cases hp : p = q.priority (q.owner it)
    · simp [Queues.append, hl, hp]
    · simp [Queues.append, hl, hp]
  · simp [Queues.append, hl]

theorem Queues.append_seq_of_ne {l' : L} (hl : l' ≠ l) : (q.append l it).seq l' = q.seq l' :=
  Function.update_of_ne hl _ _

theorem Queues.mem_append {l' : L} {p : Nat} {x : I} :
    x ∈ (q.append l it).seq l' p ↔
      x ∈ q.seq l' p ∨ (x = it ∧ l' = l ∧ p = q.priority (q.owner it)) := by
  rw [Queues.append_seq]
  split
  · rename_i hsame
    simp [hsame]
  · rename_i hother
    simp [hother]

variable [DecidableEq I]

/-- The links after an item has become the last of its priority. -/
def Store.inserted (s : Store L I T) (l : L) (it : I) : Store L I T :=
  let p := s.priority (s.owner it)
  { s with
    next := Function.update (Function.update s.next (.item it) (.root l p)) (s.prev (.root l p))
      (.item it)
    prev := Function.update (Function.update s.prev (.item it) (s.prev (.root l p))) (.root l p)
      (.item it)
    container := Function.update s.container it (some l) }

theorem wp_insert {Q : PUnit → Store L I T → Prop} :
    wp (insert n l it) Q E s ↔
      if (s.container it).isSome = true then E (.check .nodeAlreadyInList) s
      else if s.next (.item it) ≠ .item it ∨ s.prev (.item it) ≠ .item it then
        E (.check .corruptNode) s
      else if ¬s.priority (s.owner it) < n then E (.check .bogusPriority) s
      else Q ⟨⟩ (s.inserted l it) := by
  -- The root is not the item, so its backward link has not changed yet.
  have hroot : ∀ x p, Function.update s.prev (.item it) x (.root l p) = s.prev (.root l p) := by
    intro x p
    exact Function.update_of_ne (by simp) _ _
  simp only [insert, wp_bind, wp_get, wp_panicIf, wp_modify, Store.setNext, Store.setPrev,
    Store.setContainer, hroot]
  rfl

theorem Store.inserted_next {x : Itemoid L I} (hx : x ≠ s.prev (.root l (s.priority (s.owner it))))
    (hit : x ≠ .item it) : (s.inserted l it).next x = s.next x := by
  show Function.update (Function.update s.next _ _) _ _ x = s.next x
  rw [Function.update_of_ne hx, Function.update_of_ne hit]

theorem Store.inserted_prev {x : Itemoid L I} (hx : x ≠ .root l (s.priority (s.owner it)))
    (hit : x ≠ .item it) : (s.inserted l it).prev x = s.prev x := by
  show Function.update (Function.update s.prev _ _) _ _ x = s.prev x
  rw [Function.update_of_ne hx, Function.update_of_ne hit]

theorem Represents.insert (h : Represents n s q) (hnot : ∀ l', ¬q.On it l')
    (hp : q.priority (q.owner it) < n) : Represents n (s.inserted l it) (q.append l it) := by
  have hprio : s.priority (s.owner it) = q.priority (q.owner it) := by
    rw [h.priority, h.owner]
  have hfresh : ∀ l' p', it ∉ q.seq l' p' := fun l' p' hmem => hnot l' ⟨p', hmem⟩
  generalize hpdef : q.priority (q.owner it) = p at hprio hp
  have hring := h.ring l p hp
  -- The last node of the ring, whose forward link changes.
  have hlast : s.prev (.root l p) ∈ nodes l p (q.seq l p) := by
    rw [hring.prev_root]
    exact List.getLastD_mem_cons
  constructor
  · exact h.owner
  · exact h.priority
  · intro l' p' hp'
    rw [Queues.append_seq, hpdef]
    split
    · rename_i hsame
      obtain ⟨rfl, rfl⟩ := hsame
      rw [List.map_append]
      have happend := hring.append (x := .item it) (nodup_nodes (h.nodup l' p'))
        (fun hmem => hfresh l' p' (item_mem_nodes.mp hmem))
      simp only [Store.inserted, hprio]
      exact happend
    · rename_i hother
      -- The links of another ring stay.
      have hit : ∀ y ∈ nodes l' p' (q.seq l' p'), y ≠ .item it := by
        rintro y hy rfl
        exact hfresh l' p' (item_mem_nodes.mp hy)
      have hne : ∀ {x : Itemoid L I}, x ∈ nodes l p (q.seq l p) →
          ∀ y ∈ nodes l' p' (q.seq l' p'), y ≠ x := by
        rintro x hx y hy rfl
        exact hother (h.nodes_disjoint hy hx)
      apply (h.ring l' p' hp').congr
      · intro y hy
        apply Store.inserted_next _ (hit y hy)
        rw [hprio]
        exact hne hlast y hy
      · intro y hy
        apply Store.inserted_prev _ (hit y hy)
        rw [hprio]
        exact hne List.mem_cons_self y hy
  · intro l' p' hp'
    rw [Queues.append_seq, if_neg, h.beyond l' p' hp']
    omega
  · intro l' p'
    rw [Queues.append_seq]
    split
    · exact List.nodup_append.mpr ⟨h.nodup l' p', by simp, by
        rintro a ha b hb rfl
        rw [List.mem_singleton.mp hb] at ha
        exact hfresh l' p' ha⟩
    · exact h.nodup l' p'
  · intro x l₁ p₁ l₂ p₂ h₁ h₂
    rw [Queues.mem_append] at h₁ h₂
    rcases h₁ with h₁ | ⟨rfl, rfl, rfl⟩
    · rcases h₂ with h₂ | ⟨rfl, -, -⟩
      · exact h.once x l₁ p₁ l₂ p₂ h₁ h₂
      · exact absurd h₁ (hfresh l₁ p₁)
    · rcases h₂ with h₂ | ⟨-, rfl, rfl⟩
      · exact absurd h₂ (hfresh l₂ p₂)
      · exact ⟨rfl, rfl⟩
  · intro x l'
    show Function.update s.container it (some l) x = some l' ↔
      ∃ p', x ∈ (q.append l it).seq l' p'
    by_cases hx : x = it
    · rw [hx, Function.update_self]
      simp [Queues.mem_append, hfresh, eq_comm]
    · rw [Function.update_of_ne hx, h.container]
      simp [Queues.mem_append, hx, Queues.On]
  · intro x hx
    have hxit : x ≠ it := by
      rintro rfl
      simp [Store.inserted] at hx
    have hloose : s.container x = none := by
      rw [← hx]
      exact (Function.update_of_ne hxit _ _).symm
    have hself := h.loose x hloose
    have hne : ∀ {y : Itemoid L I}, y ∈ nodes l p (q.seq l p) → Itemoid.item x ≠ y := by
      rintro y hy rfl
      exact h.not_on_of_loose hloose l ⟨p, item_mem_nodes.mp hy⟩
    have hit : Itemoid.item x ≠ Itemoid.item (L := L) it := by simpa using hxit
    have hnext : (s.inserted l it).next (.item x) = s.next (.item x) := by
      apply Store.inserted_next _ hit
      rw [hprio]
      exact hne hlast
    have hprev : (s.inserted l it).prev (.item x) = s.prev (.item x) :=
      Store.inserted_prev (by simp) hit
    rw [hnext, hprev]
    exact hself

end

/-! ## The first item -/

section

variable [DecidableEq L] [DecidableEq I] {n : Nat} {s : Store L I T} {q : Queues L I T} {l : L} {it : I}
  {E : Fault → Store L I T → Prop}

theorem Represents.firstRoot_none (h : Represents n s q) :
    s.firstRoot n l = none ↔ q.Empty n l := by
  rw [Store.firstRoot, List.find?_eq_none]
  constructor
  · intro hall p hp
    have hself := hall p (List.mem_range.mpr hp)
    simpa [h.next_root_eq_iff hp] using hself
  · intro hempty p hp
    have hp' := List.mem_range.mp hp
    simp [h.next_root_eq_iff hp', hempty p hp']

/-- The first root that does not link to itself links to the first item. -/
theorem Represents.firstRoot_some (h : Represents n s q) {p : Nat} (hp : s.firstRoot n l = some p) :
    ∃ it, s.next (.root l p) = .item it ∧ q.First n l it := by
  obtain ⟨hnext, hlt, hbefore⟩ := List.find?_range_eq_some.mp hp
  have hp' := List.mem_range.mp hlt
  have hsome : q.seq l p ≠ [] := by
    simpa [h.next_root_eq_iff hp'] using hnext
  obtain ⟨it, rest, hseq⟩ := List.exists_cons_of_ne_nil hsome
  refine ⟨it, ?_, p, hp', ?_, ?_⟩
  · rw [h.next_root hp', hseq]
    rfl
  · intro p₀ hp₀
    have hself := hbefore p₀ hp₀
    simpa [h.next_root_eq_iff (hp₀.trans hp')] using hself
  · rw [hseq]
    rfl

theorem Represents.peek (h : Represents n s q) {Q : Option I → Store L I T → Prop}
    (hnone : q.Empty n l → Q none s) (hsome : ∀ it, q.First n l it → Q (some it) s) :
    wp (Pointers.peek n l) Q E s := by
  simp only [Pointers.peek, wp_bind, wp_get]
  cases hroot : s.firstRoot n l with
  | none => exact hnone (h.firstRoot_none.mp hroot)
  | some p =>
    -- The root links to an item, so the cast is good.
    obtain ⟨it, hnext, hfirst⟩ := h.firstRoot_some hroot
    simp only [hnext, toItem, wp_bind, wp_pure]
    exact hsome it hfirst

theorem Represents.take (h : Represents n s q) {Q : Option T → Store L I T → Prop}
    (hnone : q.Empty n l → Q none s)
    (hsome : ∀ it, q.First n l it → Q (some (q.owner it)) (s.unlinked it)) :
    wp (Pointers.take n l) Q E s := by
  simp only [Pointers.take, wp_bind, wp_get]
  cases hroot : s.firstRoot n l with
  | none => exact hnone (h.firstRoot_none.mp hroot)
  | some p =>
    obtain ⟨it, hnext, hfirst⟩ := h.firstRoot_some hroot
    simp only [hnext, toItem, wp_bind, wp_pure, wp_unlink, wp_get]
    have howner : (s.unlinked it).owner it = q.owner it := by
      rw [← h.owner]
      rfl
    rw [howner]
    exact hsome it hfirst

theorem Represents.isEmpty (h : Represents n s q) {Q : Bool → Store L I T → Prop}
    (hflag : ∀ b, (b = true ↔ q.Empty n l) → Q b s) : wp (Pointers.isEmpty n l) Q E s := by
  simp only [Pointers.isEmpty, wp_bind, wp_get, wp_pure]
  apply hflag
  rw [List.all_eq_true]
  constructor
  · intro hall p hp
    have hself := hall p (List.mem_range.mpr hp)
    simpa [h.next_root_eq_iff hp] using hself
  · intro hempty p hp
    have hp' := List.mem_range.mp hp
    simp [h.next_root_eq_iff hp', hempty p hp']

theorem Represents.wp_reinsert (h : Represents n s q) {Q : PUnit → Store L I T → Prop}
    (hloose : (∀ l, ¬q.On it l) → E (.check .reinsertWithoutInsert) s)
    (hbogus : ¬q.priority (q.owner it) < n → E (.check .bogusPriority) (s.unlinked it))
    (hdone : ∀ l, q.On it l → q.priority (q.owner it) < n → Q ⟨⟩ ((s.unlinked it).inserted l it)) :
    wp (reinsert n it) Q E s := by
  simp only [reinsert, wp_bind, wp_get]
  cases hc : s.container it with
  | none => exact hloose (h.not_on_of_loose hc)
  | some l =>
    -- The item links to itself once it has been taken out.
    have hself : (s.unlinked it).next (.item it) = .item it ∧
        (s.unlinked it).prev (.item it) = .item it :=
      ⟨Function.update_self _ _ _, Function.update_self _ _ _⟩
    have hcontainer : (s.unlinked it).container it = none := Function.update_self _ _ _
    have hprio : (s.unlinked it).priority ((s.unlinked it).owner it) = q.priority (q.owner it) := by
      rw [← h.priority, ← h.owner]
      rfl
    simp only [wp_bind, wp_unlink, wp_insert, hself, hcontainer, hprio]
    simp only [Option.isSome_none, ne_eq, not_true_eq_false, or_self, if_false, Bool.false_eq_true]
    split
    · rename_i hp
      exact hbogus hp
    · rename_i hp
      exact hdone l ((h.container it l).mp hc) (not_not.mp hp)

end

/-! ## Refinement -/

/-- The lists that an operation is about. -/
def Op.Touches (q : Queues L I T) : Op L I T → L → Prop
  | .insert l' _, l => l' = l
  | .unlink it, l => q.On it l
  | .reinsert it, l => q.On it l
  | .take l', l => l' = l
  | _, _ => False

section

variable [DecidableEq L] [DecidableEq I] [DecidableEq T] {n : Nat} {s : Store L I T}
  {q q' q'' : Queues L I T} {l : L} {it : I} {op : Op L I T} {r r' : Result I T}

/-- The queues of other lists stay. -/
theorem Represents.frame (h : Represents n s q) (hstep : Step n q op r q')
    (hl : ¬op.Touches q l) : q'.seq l = q.seq l := by
  cases hstep with
  | insert hnot hp => exact Queues.append_seq_of_ne (Ne.symm hl)
  | unlink => exact Queues.remove_seq hl
  | @reinsert l' it hon hp =>
    have hne : l ≠ l' := by
      rintro rfl
      exact hl hon
    rw [Queues.append_seq_of_ne hne]
    exact Queues.remove_seq hl
  | @take l' it hfirst =>
    apply Queues.remove_seq
    intro hon
    obtain ⟨p, hmem⟩ := hon
    obtain ⟨p', hmem'⟩ := hfirst.on
    exact hl (h.once it l' p' l p hmem' hmem).1
  | takeNone hempty => rfl
  | peek hfirst => rfl
  | peekNone hempty => rfl
  | isEmpty hflag => rfl
  | setPriority => rfl

/-- An operation means one thing. -/
theorem Represents.step_unique (h : Represents n s q) (hstep : Step n q op r q')
    (hstep' : Step n q op r' q'') : r = r' ∧ q' = q'' := by
  cases hstep with
  | insert hnot hp =>
    cases hstep'
    exact ⟨rfl, rfl⟩
  | unlink =>
    cases hstep'
    exact ⟨rfl, rfl⟩
  | @reinsert l it hon hp =>
    cases hstep' with
    | @reinsert l' it hon' hp' =>
      obtain ⟨p, hmem⟩ := hon
      obtain ⟨p', hmem'⟩ := hon'
      obtain ⟨rfl, -⟩ := h.once it l p l' p' hmem hmem'
      exact ⟨rfl, rfl⟩
  | take hfirst =>
    cases hstep' with
    | take hfirst' =>
      obtain rfl := hfirst.unique hfirst'
      exact ⟨rfl, rfl⟩
    | takeNone hempty => exact absurd hempty hfirst.not_empty
  | takeNone hempty =>
    cases hstep' with
    | take hfirst => exact absurd hempty hfirst.not_empty
    | takeNone hempty' => exact ⟨rfl, rfl⟩
  | peek hfirst =>
    cases hstep' with
    | peek hfirst' =>
      obtain rfl := hfirst.unique hfirst'
      exact ⟨rfl, rfl⟩
    | peekNone hempty => exact absurd hempty hfirst.not_empty
  | peekNone hempty =>
    cases hstep' with
    | peek hfirst => exact absurd hempty hfirst.not_empty
    | peekNone hempty' => exact ⟨rfl, rfl⟩
  | isEmpty hflag =>
    cases hstep' with
    | isEmpty hflag' =>
      rw [Bool.eq_iff_iff.mpr (hflag.trans hflag'.symm)]
      exact ⟨rfl, rfl⟩
  | setPriority =>
    cases hstep'
    exact ⟨rfl, rfl⟩

/-- What an operation on the lists in memory does, or which check it fails. -/
theorem Represents.run (h : Represents n s q) (op : Op L I T) :
    wp (op.run n) (fun r s' => ∃ q', Step n q op r q' ∧ Represents n s' q')
      (fun e _ => (∃ p, e = .check p) ∧ ∀ r q', ¬Step n q op r q') s := by
  cases op with
  | insert l it =>
    simp only [Op.run, wp_bind, wp_pure, wp_insert]
    have hprio : s.priority (s.owner it) = q.priority (q.owner it) := by
      rw [h.priority, h.owner]
    cases hc : s.container it with
    | some l' =>
      rw [Option.isSome_some, if_pos rfl]
      refine ⟨⟨_, rfl⟩, fun r q' hstep => ?_⟩
      cases hstep with
      | insert hnot hp => exact hnot l' ((h.container it l').mp hc)
    | none =>
      -- A loose item links to itself.
      obtain ⟨hnext, hprev⟩ := h.loose it hc
      rw [Option.isSome_none, if_neg Bool.false_ne_true, if_neg (by simp [hnext, hprev])]
      split
      · rename_i hp
        refine ⟨⟨_, rfl⟩, fun r q' hstep => ?_⟩
        cases hstep with
        | insert hnot hp' => exact hp (hprio ▸ hp')
      · rename_i hp
        have hp' : q.priority (q.owner it) < n := by
          rw [← hprio]
          exact not_not.mp hp
        have hnot := h.not_on_of_loose hc
        exact ⟨_, .insert hnot hp', h.insert hnot hp'⟩
  | unlink it =>
    simp only [Op.run, wp_bind, wp_pure, wp_unlink]
    exact ⟨_, .unlink, h.unlink it⟩
  | reinsert it =>
    simp only [Op.run, wp_bind, wp_pure]
    apply h.wp_reinsert
    · intro hnot
      refine ⟨⟨_, rfl⟩, fun r q' hstep => ?_⟩
      cases hstep with
      | @reinsert l it hon hp => exact hnot l hon
    · intro hbogus
      refine ⟨⟨_, rfl⟩, fun r q' hstep => ?_⟩
      cases hstep with
      | reinsert hon hp => exact hbogus hp
    · intro l hon hp
      refine ⟨_, .reinsert hon hp, (h.unlink it).insert ?_ hp⟩
      rintro l' ⟨p', hmem⟩
      exact ((h.nodup l' p').mem_erase_iff.mp hmem).1 rfl
  | take l =>
    simp only [Op.run, wp_bind, wp_pure]
    apply h.take
    · intro hempty
      exact ⟨q, .takeNone hempty, h⟩
    · intro it hfirst
      exact ⟨_, .take hfirst, h.unlink it⟩
  | peek l =>
    simp only [Op.run, wp_bind, wp_pure]
    apply h.peek
    · intro hempty
      exact ⟨q, .peekNone hempty, h⟩
    · intro it hfirst
      exact ⟨q, .peek hfirst, h⟩
  | isEmpty l =>
    simp only [Op.run, wp_bind, wp_pure]
    apply h.isEmpty
    intro b hflag
    exact ⟨q, .isEmpty hflag, h⟩
  | setPriority t p =>
    simp only [Op.run, wp_bind, wp_pure, wp_modify]
    refine ⟨_, .setPriority, ?_⟩
    exact { h with priority := by rw [h.priority] }

end

/-! ## Runs of operations -/

section

variable [DecidableEq L] [DecidableEq I] [DecidableEq T]

/-- The operations one after the other. -/
def runAll (n : Nat) : List (Op L I T) → M L I T (List (Result I T))
  | [] => return []
  | op :: ops => do
    let r ← op.run n
    return r :: (← runAll n ops)

inductive Steps (n : Nat) :
    Queues L I T → List (Op L I T) → List (Result I T) → Queues L I T → Prop where
  | nil {q : Queues L I T} : Steps n q [] [] q
  | cons {q q' q'' : Queues L I T} {op : Op L I T} {ops : List (Op L I T)} {r : Result I T}
      {rs : List (Result I T)} :
      Step n q op r q' → Steps n q' ops rs q'' → Steps n q (op :: ops) (r :: rs) q''

variable {n : Nat} {s : Store L I T} {q : Queues L I T}

theorem Represents.runAll (h : Represents n s q) (ops : List (Op L I T)) :
    wp (runAll n ops) (fun rs s' => ∃ q', Steps n q ops rs q' ∧ Represents n s' q')
      (fun e _ => (∃ p, e = .check p) ∧ ∀ rs q', ¬Steps n q ops rs q') s := by
  induction ops generalizing s q with
  | nil => exact ⟨q, .nil, h⟩
  | cons op ops ih =>
    simp only [Pointers.runAll, wp_bind, wp_pure]
    apply wp_mono (h.run op)
    · rintro r s' ⟨q', hstep, h'⟩
      apply wp_mono (ih h')
      · rintro rs s'' ⟨q'', hsteps, h''⟩
        exact ⟨q'', .cons hstep hsteps, h''⟩
      · -- The first operation has no other outcome.
        rintro e s'' ⟨hcheck, hnone⟩
        refine ⟨hcheck, fun rs q'' hsteps => ?_⟩
        cases hsteps with
        | cons hstep' hrest =>
          obtain ⟨-, rfl⟩ := h.step_unique hstep hstep'
          exact hnone _ _ hrest
    · rintro e s' ⟨hcheck, hnone⟩
      refine ⟨hcheck, fun rs q'' hsteps => ?_⟩
      cases hsteps with
      | cons hstep hrest => exact hnone _ _ hstep

/-- The lists in memory are stable priority queues. -/
theorem lists_refine_queues (n : Nat) (owner : I → T) (priority : T → Nat)
    (ops : List (Op L I T)) :
    wp (runAll n ops)
      (fun rs s => ∃ q, Steps n (Queues.new owner priority) ops rs q ∧ Represents n s q ∧
        (∀ it, s.container it = none → wp (unlink it) (fun _ s' => s' = s) never s) ∧
        ∀ op r q' l, Step n q op r q' → ¬op.Touches q l → q'.seq l = q.seq l)
      (fun e _ => (∃ p, e = .check p) ∧ ∀ rs q, ¬Steps n (Queues.new owner priority) ops rs q)
      (Store.new owner priority) := by
  apply wp_mono ((represents_new n owner priority).runAll ops)
  · rintro rs s ⟨q, hsteps, h⟩
    refine ⟨q, hsteps, h, ?_, ?_⟩
    · intro it hc
      rw [wp_unlink]
      exact h.unlinked_of_loose hc
    · intro op r q' l hstep hl
      exact h.frame hstep hl
  · intro e s hfail
    exact hfail

end

end BrittleKernel.Pointers
