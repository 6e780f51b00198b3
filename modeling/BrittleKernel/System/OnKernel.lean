import Mathlib
import BrittleKernel.KernelCalls
import BrittleKernel.System.Calls

/-!
# The System Task on the Kernel

The calls of the system task are modelled as methods run on the kernel's state.  Here they are
compared with what the kernel does when a program makes the system call.
-/

namespace BrittleKernel.System

open Hoare KState

section

variable {build : Build} {app : AppInfo} {s s' : KState} {stack : Word} {regs : UserRegisters}
  {σ : State}

/-- The invoked key leads to a kernel object, not to another program. -/
def Serves (s : KState) (regs : UserRegisters) : Prop :=
  ¬((s.kind (s.invoked regs) = .gate ∨ s.kind (s.invoked regs) = .context) ∧
    (s.invokedBrand regs).isTop = true)

instance (s : KState) (regs : UserRegisters) : Decidable (Serves s regs) :=
  inferInstanceAs (Decidable (¬_))

theorem Serves.served (h : Serves s regs) :
    s.served (s.invoked regs) (s.invokedBrand regs) = some (s.kind (s.invoked regs)) := by
  unfold KState.served
  split
  next hkind => rw [if_neg fun htop => h ⟨.inl hkind, htop⟩, hkind]
  next hkind => rw [if_neg fun htop => h ⟨.inr hkind, htop⟩, hkind]
  next => rfl

/-- A call looks its key up, and leaves the rest to the method. -/
theorem call_calling (h : Serves s regs) (hσ : σ.kernel = s.calling stack regs) :
    call build (s.keyAt (s.targetReg regs)) (svcMessage regs) (s.svcKeys stack regs) σ =
      onKernel (Object.serve (.source build.etl) (s.invoked regs) (s.invokedBrand regs)
        (svcMessage regs) (s.svcKeys stack regs) (s.kind (s.invoked regs))) σ := by
  have hobjects : (s.svcSending stack regs).objects = s.objects := objects_svcSending
  have hresolve : ∀ k, (s.calling stack regs).resolve k = s.resolve k := resolve_of_objects hobjects
  have htarget : ∀ k, (s.calling stack regs).target k = s.target k := target_of_objects hobjects
  have hkind : (s.calling stack regs).kind = s.kind := kind_of_objects hobjects
  obtain ⟨kernel, ot, memRoots, slotsUsed⟩ := σ
  obtain rfl := hσ
  refine eq_of_wp fun {Q E} hserve => ?_
  simp only [call, wp_bind, wp_onKernel, localKeyGet, wp_get, wp_pure, State.over, hresolve, htarget,
    hkind]
  split
  next hforward => exact absurd hforward h
  next => exact hserve

end

def sampleBuild : Build := ⟨Sample.etl, 4#32, 0#32, 3#32⟩

end BrittleKernel.System
