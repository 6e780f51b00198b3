import Mathlib
import BrittleKernel.Runs

/-!
# Key Register 0

Register 0 of every Context designates the Null object, whatever arrives at map position 0
and whatever becomes of the Null entry's generation.
-/

namespace BrittleKernel

open Hoare KState

/-- The states that a kernel entry from `s` passes through, between acts of message passing
and methods. -/
inductive InEntry (cfg : Config) (s : KState) : KState → Prop where
  | enter : InEntry cfg s s
  | act {t t' : KState} : InEntry cfg s t → Act (.any True) t t' → InEntry cfg s t'
  | method {t t' : KState} {e : TableIndex} {b : Brand} {m : Message} {k : Keys} {rs : ReplySender} :
      InEntry cfg s t → Effect cfg e b m k t rs t' → InEntry cfg s t'

/-- Register 0 is null, and a map position of 0 neither sends nor stores a key. -/
structure KState.NullDefended (s : KState) : Prop where
  register : ∀ c, s.kind (s.target (s.keyAt (.keyReg c 0))) = .null
  sent : ∀ c (i : Fin nMessageKeys), nibble ((s.context c).save 6) i = 0 →
    (i = 0 → (s.context c).save.message.desc.isCall = false) →
    s.kind (s.target (s.sentKeys c i)) = .null
  stored : ∀ c map i k, nibble map i = 0 → KeysRef.set (.bank c map) i k s = .ok ⟨⟩ s

namespace KState

variable {s : KState}

theorem Steady.nullDefended (hs : s.Steady) (hnull : s.kind 0 = .null) : s.NullDefended := by
  have hregister : ∀ c, s.kind (s.target (s.keyAt (.keyReg c 0))) = .null := by
    intro c
    rw [(hs.register0 c).target]
    exact hnull
  refine ⟨hregister, fun c i hmap hcall => ?_, fun c map i k hmap => ?_⟩
  · -- Only a call's position 0 is not read from the registers.
    have hnot : ¬(i = 0 ∧ (s.context c).save.message.desc.isCall = true) := by
      rintro ⟨hi, hc⟩
      simp [hcall hi] at hc
    rw [sentKeys, if_neg hnot, hmap]
    exact hregister c
  · simp [KeysRef.set, hmap, pure, EStateM.pure]

theorem InEntry.steady {cfg : Config} {t : KState} (h : InEntry cfg s t) (hs : s.Steady)
    (hwf : s.WellFormed) : t.Steady ∧ t.WellFormed := by
  induction h with
  | enter => exact ⟨hs, hwf⟩
  | act _ hact ih => exact ⟨hact.steady ih.1, hact.wellFormed ih.2⟩
  | method _ heffect ih => exact ⟨heffect.steady ih.1, heffect.wellFormed ih.2⟩

end KState

end BrittleKernel
