import BrittleKernel.Protocols
import BrittleKernel.Lib.Hoare
import Mathlib.Tactic.IntervalCases

/-!
# Bulk Access to the Save Area

The methods of a Context that read and write half of its save area against the methods for
one register.  Reading agrees.  The bulk write stores the words of the reply that is being
made up instead of those of the message, so it agrees with five single writes exactly if
those write zeros.
-/

namespace BrittleKernel

open Hoare

/-! ## Requests -/

/-- A message with the given selector and data words. -/
def Message.ofWords (selector : Word) (d : Fin 5 → Word) : Message :=
  ⟨⟨selector⟩, d 0, d 1, d 2, d 3, d 4⟩

/-- The data words of a message. -/
def Message.words (m : Message) : Fin 5 → Word := ![m.d0, m.d1, m.d2, m.d3, m.d4]

namespace Context

variable (c : TableIndex) (k : Keys) (high : Bool)

/-- Read Register at an index. -/
def readOne (i : Fin 10) : K Word := do
  let rs ← serve c (.ofWords 1#32 ![BitVec.ofNat 32 i, 0#32, 0#32, 0#32, 0#32]) k
  return rs.message.d0

/-- Write Register at an index. -/
def writeOne (i : Fin 10) (w : Word) : K Unit := do
  let _ ← serve c (.ofWords 2#32 ![BitVec.ofNat 32 i, w, 0#32, 0#32, 0#32]) k

/-- Five Read Register messages, for one half. -/
def readEach : K (Fin 5 → Word) := do
  let v0 ← readOne c k (halfStart high 0)
  let v1 ← readOne c k (halfStart high 1)
  let v2 ← readOne c k (halfStart high 2)
  let v3 ← readOne c k (halfStart high 3)
  let v4 ← readOne c k (halfStart high 4)
  return ![v0, v1, v2, v3, v4]

/-- Five Write Register messages, for one half. -/
def writeEach (v : Fin 5 → Word) : K Unit := do
  writeOne c k (halfStart high 0) (v 0)
  writeOne c k (halfStart high 1) (v 1)
  writeOne c k (halfStart high 2) (v 2)
  writeOne c k (halfStart high 3) (v 3)
  writeOne c k (halfStart high 4) (v 4)

/-- Read Low Registers or Read High Registers. -/
def readBulk : K (Fin 5 → Word) := do
  let rs ← serve c (.ofWords (if high then 11#32 else 10#32) fun _ => 0#32) k
  return rs.message.words

/-- Write Low Registers or Write High Registers. -/
def writeBulk (v : Fin 5 → Word) : K Unit := do
  let _ ← serve c (.ofWords (if high then 13#32 else 12#32) v) k

/-- The use that the manual names: read both halves, and write both back later. -/
def swap : K Unit := do
  let low ← readBulk c k false
  let top ← readBulk c k true
  writeBulk c k false low
  writeBulk c k true top

end Context

/-! ## What the messages do -/

namespace SavedRegisters

/-- One half of a save area. -/
def half (r : SavedRegisters) (high : Bool) : Fin 5 → Word := fun i => r (Context.halfStart high i)

/-- A save area with one half replaced. -/
def setHalf (r : SavedRegisters) (high : Bool) (v : Fin 5 → Word) : SavedRegisters := fun j =>
  if high then if h : 5 ≤ j.val then v ⟨j.val - 5, by omega⟩ else r j
  else if h : j.val < 5 then v ⟨j.val, h⟩ else r j

theorem vec_half (r : SavedRegisters) (high : Bool) :
    ![r (Context.halfStart high 0), r (Context.halfStart high 1), r (Context.halfStart high 2),
      r (Context.halfStart high 3), r (Context.halfStart high 4)] = r.half high := by
  funext i
  obtain ⟨i, hi⟩ := i
  interval_cases i <;> rfl

theorem half_setHalf (r : SavedRegisters) (high : Bool) (v : Fin 5 → Word) :
    (r.setHalf high v).half high = v := by
  funext i
  cases high <;> simp [half, setHalf, Context.halfStart]

theorem setHalf_zeros (r : SavedRegisters) :
    (r.setHalf false fun _ => 0#32).setHalf true (fun _ => 0#32) = fun _ => 0#32 := by
  funext j
  by_cases h : 5 ≤ j.val
  · simp [setHalf, h]
  · simp [setHalf, h, Nat.not_le.mp h]

/-- Updating the five registers of a half one by one. -/
theorem update_eq_setHalf (r : SavedRegisters) (high : Bool) (v : Fin 5 → Word) :
    Function.update (Function.update (Function.update (Function.update (Function.update r
      (Context.halfStart high 0) (v 0)) (Context.halfStart high 1) (v 1))
      (Context.halfStart high 2) (v 2)) (Context.halfStart high 3) (v 3))
      (Context.halfStart high 4) (v 4) = r.setHalf high v := by
  funext j
  obtain ⟨j, hj⟩ := j
  cases high <;> interval_cases j <;> rfl

end SavedRegisters

namespace Context

variable {c : TableIndex} {k : Keys} {high : Bool} {s : KState} {E : Panic → KState → Prop}

theorem wp_readOne {Q : Word → KState → Prop} (i : Fin 10) :
    wp (readOne c k i) Q E s ↔ Q ((s.context c).save i) s := by
  have hi : (BitVec.ofNat 32 i.val).toNat = i.val := by
    rw [BitVec.toNat_ofNat, Nat.mod_eq_of_lt (by omega)]
  have hmethod : ContextMethod.ofSelector (Descriptor.getSelector ⟨1#32⟩) = some .readRegister := by
    decide
  simp only [readOne, serve, Message.ofWords, hmethod, wp_bind, wp_dite, Matrix.cons_val_zero, hi,
    i.isLt, wp_get, wp_pure]
  simp

theorem wp_writeOne {Q : Unit → KState → Prop} (i : Fin 10) (w : Word) :
    wp (writeOne c k i w) Q E s ↔
      Q () (s.updateContext c fun b => { b with save := Function.update b.save i w }) := by
  have hi : (BitVec.ofNat 32 i.val).toNat = i.val := by
    rw [BitVec.toNat_ofNat, Nat.mod_eq_of_lt (by omega)]
  have hmethod : ContextMethod.ofSelector (Descriptor.getSelector ⟨2#32⟩) = some .writeRegister := by
    decide
  simp only [writeOne, serve, Message.ofWords, hmethod, wp_bind, wp_dite, Matrix.cons_val_zero, hi,
    i.isLt, wp_modify, wp_pure]
  simp

theorem wp_readBulk {Q : (Fin 5 → Word) → KState → Prop} :
    wp (readBulk c k high) Q E s ↔ Q ((s.context c).save.half high) s := by
  have hlow : ContextMethod.ofSelector (Descriptor.getSelector ⟨10#32⟩) = some .readLowRegisters := by
    decide
  have htop : ContextMethod.ofSelector (Descriptor.getSelector ⟨11#32⟩) = some .readHighRegisters := by
    decide
  cases high with
  | false =>
    simp only [readBulk, serve, Message.ofWords, Bool.false_eq_true, if_false, hlow, readRegisters,
      wp_bind, wp_get, wp_pure, Message.words, SavedRegisters.vec_half]
  | true =>
    simp only [readBulk, serve, Message.ofWords, if_true, htop, readRegisters, wp_bind, wp_get,
      wp_pure, Message.words, SavedRegisters.vec_half]

/-- The words of the message play no part: the half becomes the words of an empty reply. -/
theorem wp_writeBulk {Q : Unit → KState → Prop} (v : Fin 5 → Word) :
    wp (writeBulk c k high v) Q E s ↔
      Q () (s.updateContext c fun b => { b with save := b.save.setHalf high fun _ => 0#32 }) := by
  have hlow : ContextMethod.ofSelector (Descriptor.getSelector ⟨12#32⟩) = some .writeLowRegisters := by
    decide
  have htop : ContextMethod.ofSelector (Descriptor.getSelector ⟨13#32⟩) = some .writeHighRegisters := by
    decide
  cases high with
  | false =>
    simp only [writeBulk, serve, Message.ofWords, Bool.false_eq_true, if_false, hlow, writeRegisters,
      wp_bind, wp_modify, wp_pure, ← SavedRegisters.update_eq_setHalf]
  | true =>
    simp only [writeBulk, serve, Message.ofWords, if_true, htop, writeRegisters, wp_bind, wp_modify,
      wp_pure, ← SavedRegisters.update_eq_setHalf]

theorem wp_readEach {Q : (Fin 5 → Word) → KState → Prop} :
    wp (readEach c k high) Q E s ↔ Q ((s.context c).save.half high) s := by
  simp only [readEach, wp_bind, wp_readOne, wp_pure, SavedRegisters.vec_half]

theorem wp_writeEach {Q : Unit → KState → Prop} (v : Fin 5 → Word) :
    wp (writeEach c k high v) Q E s ↔
      Q () (s.updateContext c fun b => { b with save := b.save.setHalf high v }) := by
  simp only [writeEach, wp_bind, wp_writeOne]
  simp [KState.updateContext, ← SavedRegisters.update_eq_setHalf]

end Context

/-! ## Bulk against single -/

namespace Context

/-- The bulk methods on one half agree with the single-register ones, for the words written. -/
structure BulkAgrees (c : TableIndex) (k : Keys) (high : Bool) (v : Fin 5 → Word) (s : KState) :
    Prop where
  read : readBulk c k high s = readEach c k high s
  write : ∃ s₁ s₂, writeBulk c k high v s = .ok () s₁ ∧ writeEach c k high v s = .ok () s₂ ∧
    (s₁.context c).save = (s₂.context c).save

/-- Writing both halves with what was read from them restores the save area. -/
def SwapRestores (c : TableIndex) (k : Keys) (s : KState) : Prop :=
  wp (swap c k) (fun _ s' => (s'.context c).save = (s.context c).save) never s

/-- The bulk methods are right exactly about zeros. -/
theorem bulk_agrees_iff (c : TableIndex) (k : Keys) (s : KState) :
    (∀ high v, BulkAgrees c k high v s ↔ ∀ i, v i = 0#32) ∧
      (SwapRestores c k s ↔ ∀ i, (s.context c).save i = 0#32) := by
  constructor
  · intro high v
    have hread : readBulk c k high s = readEach c k high s :=
      eq_of_wp fun h => wp_readBulk.mpr (wp_readEach.mp h)
    have hbulk : ∃ s₁, writeBulk c k high v s = .ok () s₁ ∧
        (s₁.context c).save = (s.context c).save.setHalf high fun _ => 0#32 := by
      obtain ⟨⟨⟩, s₁, hok, hsave⟩ := exists_ok (x := writeBulk c k high v) (s := s)
        (Q := fun _ s₁ => (s₁.context c).save = (s.context c).save.setHalf high fun _ => 0#32)
        ((wp_writeBulk v).mpr (by simp [KState.updateContext]))
      exact ⟨s₁, hok, hsave⟩
    have heach : ∃ s₂, writeEach c k high v s = .ok () s₂ ∧
        (s₂.context c).save = (s.context c).save.setHalf high v := by
      obtain ⟨⟨⟩, s₂, hok, hsave⟩ := exists_ok (x := writeEach c k high v) (s := s)
        (Q := fun _ s₂ => (s₂.context c).save = (s.context c).save.setHalf high v)
        ((wp_writeEach v).mpr (by simp [KState.updateContext]))
      exact ⟨s₂, hok, hsave⟩
    obtain ⟨s₁, hok₁, hsave₁⟩ := hbulk
    obtain ⟨s₂, hok₂, hsave₂⟩ := heach
    constructor
    · -- The half now holds zeros on one side and the words on the other.
      rintro ⟨-, t₁, t₂, h₁, h₂, hsame⟩ i
      obtain ⟨-, rfl⟩ := EStateM.Result.ok.inj (hok₁.symm.trans h₁)
      obtain ⟨-, rfl⟩ := EStateM.Result.ok.inj (hok₂.symm.trans h₂)
      rw [hsave₁, hsave₂] at hsame
      have hhalf := congrArg (SavedRegisters.half · high) hsame
      simp only [SavedRegisters.half_setHalf] at hhalf
      exact (congrFun hhalf i).symm
    · intro hzero
      obtain rfl : v = fun _ => 0#32 := funext hzero
      exact ⟨hread, s₁, s₂, hok₁, hok₂, hsave₁.trans hsave₂.symm⟩
  · simp only [SwapRestores, swap, wp_bind, wp_readBulk, wp_writeBulk, KState.updateContext,
      Function.update_self]
    rw [SavedRegisters.setHalf_zeros]
    exact ⟨fun h i => (congrFun h i).symm, fun h => funext fun i => (h i).symm⟩

/-- Write Low Registers with a one in d0 leaves a zero in r4. -/
theorem bulk_disagrees :
    ¬BulkAgrees 2 (fun _ => {}) false (fun _ => 1#32) { kind := fun _ => .context } := by
  rintro ⟨-, s₁, s₂, h₁, h₂, hsame⟩
  have hbulk := wp_ok (E := never) ((wp_writeBulk (Q := fun _ s' => (s'.context 2).save 0 = 0#32) _).mpr
    (by simp [KState.updateContext, SavedRegisters.setHalf])) h₁
  have heach := wp_ok (E := never) ((wp_writeEach (Q := fun _ s' => (s'.context 2).save 0 = 1#32) _).mpr
    (by simp [KState.updateContext, SavedRegisters.setHalf])) h₂
  rw [hsame, heach] at hbulk
  contradiction

end Context

end BrittleKernel
