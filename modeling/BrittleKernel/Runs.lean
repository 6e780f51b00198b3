import Mathlib.Algebra.Group.Nat.Defs
import BrittleKernel.Settled

/-!
# Runs that Can Be Evaluated

A run of the kernel from boot is a computation; when it evaluates to a return, the state it
ends in is reachable.  The sample application gives such runs a place to start.
-/

namespace BrittleKernel

/-! ## Outcomes -/

/-- The program returned. -/
def returned {α : Type} : EStateM.Result Panic KState α → Bool
  | .ok _ _ => true
  | .error _ _ => false

/-- The state a program ended in. -/
def endState {α : Type} : EStateM.Result Panic KState α → KState
  | .ok _ s => s
  | .error _ s => s

theorem eq_ok_of_returned {r : EStateM.Result Panic KState Unit} (h : returned r = true) :
    r = .ok () (endState r) := by
  cases r with
  | ok u s => rfl
  | error p s => simp [returned] at h

/-- The panic that a program ended with. -/
def panicked {α : Type} : EStateM.Result Panic KState α → Option Panic
  | .ok _ _ => none
  | .error p _ => some p

theorem eq_error_of_panicked {r : EStateM.Result Panic KState Unit} {p : Panic}
    (h : panicked r = some p) : r = .error p (endState r) := by
  cases r with
  | ok u s => simp [panicked] at h
  | error q s =>
    obtain rfl := Option.some.inj h
    rfl

/-! ## Runs from boot -/

/-- Boot, then a sequence of actions. -/
def bootAndRun (cfg : Config) (app : AppInfo) (machine : Machine) (as : List Action) : K Unit := do
  startApp app machine
  runActions cfg as

section

variable {cfg : Config} {app : AppInfo} {machine : Machine} {s s' : KState} {as : List Action}

theorem runActions_cons {a : Action} : runActions cfg (a :: as) s = .ok () s' ↔
    ∃ t, BrittleKernel.step cfg a s = .ok () t ∧ runActions cfg as t = .ok () s' := by
  have hsplit : runActions cfg (a :: as) s =
      EStateM.bind (BrittleKernel.step cfg a) (fun _ => runActions cfg as) s := rfl
  rw [hsplit, EStateM.bind]
  cases BrittleKernel.step cfg a s with
  | ok u t => simp
  | error p t => simp

theorem runActions_nil : runActions cfg [] s = .ok () s' ↔ s = s' := by
  simp [runActions, pure, EStateM.pure]

theorem Reachable.run (h : Reachable cfg app s) (hrun : runActions cfg as s = .ok () s') :
    Reachable cfg app s' := by
  induction as generalizing s with
  | nil => exact runActions_nil.mp hrun ▸ h
  | cons a as ih =>
    obtain ⟨t, hstep, hrun⟩ := runActions_cons.mp hrun
    exact ih (.step h hstep) hrun

theorem reachable_of_bootAndRun (h : bootAndRun cfg app machine as {} = .ok () s) :
    Reachable cfg app s := by
  simp only [bootAndRun, bind, EStateM.bind] at h
  cases hboot : startApp app machine {} with
  | ok u t =>
    rw [hboot] at h
    exact (Reachable.boot hboot).run h
  | error p t => simp [hboot] at h

end

/-! ## A sample application -/

namespace Sample

/-- The encoding with read-only access in code 6. -/
def etl : Etl := ⟨6#3, .inl rfl⟩

/-- Memory for a stack (entry 3), a Context's body (4), a Gate's body (5) and data (6), three
Slots (7 to 9) and two interrupt lines; the first Context gets full access to entry 3. -/
def app : AppInfo where
  abiToken := currentAbiToken
  memoryMapCount := 4#32
  deviceMapCount := 0#32
  extraSlotCount := 3#32
  externalInterruptCount := 2#32
  donatedRamBegin := 0x20004000#32
  donatedRamEnd := 0x20005000#32
  initialTaskSp := 0x20000400#32
  initialTaskPc := 0x1001#32
  initialTaskGrants := fun i => if i = 0 then ⟨3#32, 0x30000#32⟩ else {}
  memoryMap := fun i =>
    if i = 0 then ⟨0x20000000#32, 0x20000400#32⟩
    else if i = 1 then ⟨0x20001000#32, 0x20001200#32⟩
    else if i = 2 then ⟨0x20001200#32, 0x20001220#32⟩
    else if i = 3 then ⟨0x20001400#32, 0x20001500#32⟩ else {}

def machine : Machine := ⟨some 0x20004000#32, fun _ => 0#8⟩

/-- An IPC descriptor: selector, target and source registers, and the operations enabled. -/
def descriptor (selector target source : Nat) (send receive block : Bool) : Word :=
  BitVec.ofNat 32 (selector + target * 2 ^ 20 + source * 2 ^ 24)
    ||| (BitVec.ofBool send).setWidth 32 <<< 17
    ||| (BitVec.ofBool receive).setWidth 32 <<< 18
    ||| (BitVec.ofBool block).setWidth 32 <<< 19

/-- Registers for a system call: the descriptor, data words, and the maps for keys sent and
received. -/
def registers (desc d0 d1 d2 sendMap receiveMap : Word) : UserRegisters :=
  ![desc, d0, d1, d2, 0#32, 0#32, sendMap, receiveMap]

def stack : Word := 0x200003e0#32

def ipc (desc d0 d1 d2 sendMap receiveMap : Word) : Action :=
  .svc stack (registers desc d0 d1 d2 sendMap receiveMap)

/-- A call to the object behind a key register. -/
def call (selector target : Nat) (d0 d1 d2 sendMap receiveMap : Word) : Action :=
  ipc (descriptor selector target 0 true true false) d0 d1 d2 sendMap receiveMap

/-- A message sent to the object behind a key register, with no reply expected. -/
def send (selector target : Nat) (d0 d1 d2 sendMap : Word) : Action :=
  ipc (descriptor selector target 0 true false false) d0 d1 d2 sendMap 0#32

/-- The sample application after some actions. -/
def after (as : List Action) : EStateM.Result Panic KState Unit :=
  bootAndRun (.source etl) app machine as {}

theorem reachable_after (as : List Action) (h : returned (after as) = true) :
    Reachable (.source etl) app (endState (after as)) :=
  reachable_of_bootAndRun (eq_ok_of_returned h)

/-- A program returned in a state that passes a test. -/
def passes (test : KState → Bool) : EStateM.Result Panic KState Unit → Bool
  | .ok _ s => test s
  | .error _ _ => false

theorem exists_of_passes {as : List Action} {test : KState → Bool}
    (h : passes test (after as) = true) :
    ∃ s, after as = .ok () s ∧ Reachable (.source etl) app s ∧ test s = true := by
  cases hrun : after as with
  | ok u s =>
    rw [hrun] at h
    exact ⟨s, rfl, reachable_of_bootAndRun hrun, h⟩
  | error p s => simp [hrun, passes] at h

/-- A second Context (entry 4) is made runnable with a client key to a Gate (entry 5), and its
send to the Gate blocks. -/
def queueing : List Action := [
  call 1 1 4#32 0x30000#32 0#32 0#32 0x20#32,
  call 1 1 5#32 0x30000#32 0#32 0#32 0x30#32,
  call 4 2 0#32 0#32 0#32 0#32 0x20#32,
  call 4 3 1#32 0#32 0#32 0#32 0x30#32,
  call 1 3 0#32 0#32 0#32 0#32 0x60#32,
  call 4 2 1#32 0#32 0#32 0x60#32 0#32,
  call 7 2 0#32 0#32 0#32 0#32 0#32,
  ipc (descriptor 0 1 0 true false true) 0#32 0#32 0#32 0#32 0#32]

/-- A child of 64 bytes is made in the block of entry 6. -/
def parenting : List Action := [
  call 1 1 6#32 0x30000#32 0#32 0#32 0x20#32,
  call 1 1 7#32 0#32 0#32 0#32 0x30#32,
  call 7 2 0x20001440#32 0x40#32 0#32 0x30#32 0x40#32]

end Sample

end BrittleKernel
