import BrittleKernel.Outcomes

/-!
# Requests

What a kernel entry sends and where, in terms of the state before it: the key that is
invoked, its target, the message.
-/

namespace BrittleKernel

open Hoare KState

/-! ## System calls that send -/

/-- The object that a system call sends to. -/
def KState.invoked (s : KState) (regs : UserRegisters) : TableIndex :=
  s.target (s.keyAt (s.targetReg regs))

theorem KState.keyAt_ready_of_live {s : KState} {stack : Word} {regs : UserRegisters} {loc : KeyLoc}
    (hlive : s.isLive (s.keyAt loc) = true) : (s.ready stack regs).keyAt loc = s.keyAt loc := by
  have hentered : (s.entered stack regs).keyAt = s.keyAt := keyAt_updateContext rfl rfl
  unfold ready dropped
  split
  · rw [hentered]
  next hstale =>
    rw [keyAt_setKeyAt_of_ne, hentered]
    rintro rfl
    rw [hentered, isLive_of_objects (objects_entered s stack regs)] at hstale
    exact hstale hlive

namespace KState

variable {s : KState} {stack : Word} {regs : UserRegisters}

theorem resolve_keyAt_dropped (l loc : KeyLoc) :
    (s.dropped l).resolve ((s.dropped l).keyAt loc) = s.resolve (s.keyAt loc) := by
  rw [resolve_of_objects (objects_dropped s l)]
  by_cases hloc : loc = l
  · subst hloc
    rw [keyAt_dropped, resolve_resolve]
  · unfold dropped
    split
    · rfl
    · rw [keyAt_setKeyAt_of_ne hloc]

/-- On the way into the kernel keys are only nulled that would have been nulled anyway. -/
theorem resolve_keyAt_svcSending (s : KState) (stack : Word) (regs : UserRegisters) (loc : KeyLoc) :
    (s.svcSending stack regs).resolve ((s.svcSending stack regs).keyAt loc) =
      s.resolve (s.keyAt loc) := by
  have hentered : (s.entered stack regs).keyAt = s.keyAt := keyAt_updateContext rfl rfl
  have hrecord : ∀ (t : KState) ev k, (t.record ev).resolve k = t.resolve k := fun _ _ _ => rfl
  rw [svcSending, sending, keyAt_record, hrecord, resolve_keyAt_dropped, ready, resolve_keyAt_dropped,
    hentered, resolve_of_objects (objects_entered s stack regs)]

theorem objects_svcSending : (s.svcSending stack regs).objects = s.objects := by
  simp [svcSending]

theorem save_dropped (l : KeyLoc) (c : TableIndex) :
    ((s.dropped l).context c).save = (s.context c).save := by
  unfold dropped
  split
  · rfl
  · cases l with
    | target i => rfl
    | keyReg x i | regionReg x i => by_cases hx : c = x <;> simp [setKeyAt, hx]

theorem save_svcSending : ((s.svcSending stack regs).context s.current).save =
    Function.update (fun i => if h : i.val < 8 then regs ⟨i.val, h⟩ else (s.context s.current).save i)
      9 stack := by
  rw [svcSending, sending, context_record, save_dropped, ready, save_dropped, entered]
  simp

theorem context_svcSending_of_ne {c : TableIndex} (hc : c ≠ s.current) :
    (s.svcSending stack regs).context c = s.context c := by
  have hdrop : ∀ (t : KState) (i : Fin nTaskKeys),
      (t.dropped (.keyReg s.current i)).context c = t.context c := by
    intro t i
    unfold dropped
    split
    · rfl
    · simp [setKeyAt, hc]
  rw [svcSending, sending, context_record, targetReg, hdrop, ready, hdrop, entered]
  simp [hc]

/-- Checking a key does not change what any key designates. -/
theorem target_keyAt_ready (loc : KeyLoc) :
    (s.ready stack regs).target ((s.ready stack regs).keyAt loc) = s.target (s.keyAt loc) := by
  have hentered : (s.entered stack regs).keyAt = s.keyAt := keyAt_updateContext rfl rfl
  rw [target, ready, resolve_keyAt_dropped, hentered, resolve_of_objects (objects_entered s stack regs),
    target]

/-- The message that a system call sends. -/
def svcMessage (regs : UserRegisters) : Message :=
  ({ desc := ⟨regs 0⟩, d0 := regs 1, d1 := regs 2, d2 := regs 3, d3 := regs 4,
     d4 := regs 5 } : Message).sanitized

theorem outgoing_svcSending :
    ((s.svcSending stack regs).outgoing (.context s.current)).1 = svcMessage regs := by
  rw [outgoing, save_svcSending]
  rfl

/-- The message that an Interrupt sends. -/
def irqMessage (s : KState) (i : TableIndex) : Message :=
  { desc := Descriptor.zero.withSelector 1#16, d0 := (s.interrupt i).identifier }

theorem irqMessage_sending (i : TableIndex) :
    (((s.masked i).sending i (.target i)).outgoing (.interrupt i)).1 = s.irqMessage i := by
  have hident : (((s.masked i).sending i (.target i)).interrupt i).identifier =
      (s.interrupt i).identifier := by
    unfold sending dropped masked
    split
    · rfl
    · simp [setKeyAt]
  rw [outgoing, hident, irqMessage]

end KState

/-- In this step a message is sent to object `e`. -/
inductive Requests (s : KState) : Action → TableIndex → Message → Prop where
  | svc {stack : Word} {regs : UserRegisters} : (⟨regs 0⟩ : Descriptor).getSysnum = 0 →
      (⟨regs 0⟩ : Descriptor).getSendEnabled = true →
      Requests s (.svc stack regs) (s.invoked regs) (svcMessage regs)
  | irq {n : BitVec 9} {i : TableIndex} : s.irqTable (n.toNat - 15) = some i →
      Requests s (.irq n) (s.target (s.interrupt i).target) (s.irqMessage i)

/-- A step sends at most one message. -/
theorem Requests.unique {s : KState} {a : Action} {e e' : TableIndex} {m m' : Message}
    (h : Requests s a e m) (h' : Requests s a e' m') : e = e' ∧ m = m' := by
  cases h with
  | svc => cases h' with
    | svc => exact ⟨rfl, rfl⟩
  | irq hi => cases h' with
    | irq hi' =>
      obtain rfl := Option.some.inj (hi.symm.trans hi')
      exact ⟨rfl, rfl⟩

end BrittleKernel
