import Mathlib
import BrittleKernel.Confinement
import BrittleKernel.KernelCalls

/-!
# Refused Calls

A method that answers with an exception has done nothing.  So a call that is refused leaves the
whole machine as it was, but for the caller's own registers and its place among the runnable
Contexts.
-/

namespace BrittleKernel

open Hoare KState

/-! ## Methods that refuse -/

section

variable {cfg : Config} {s s' : KState} {e : TableIndex} {brand : Brand} {m : Message} {k : Keys}
  {rs : ReplySender}

/-- A method that replies with an exception sends no keys and changes nothing; that Invalidate was
asked for is noted. -/
theorem Effect.refused (h : Effect cfg e brand m k s rs s') (herror : rs.message.desc.getError = true) :
    (∀ i, rs.keys i = {}) ∧ (s' = s ∨ s' = s.record (.invalidateRequested m.d0 (m.d1 != 0#32))) := by
  have hvalue : ∀ key : Key, (ReplySender.withKey key).message.desc.getError = false :=
    ReplySender.getError_withKey
  have hsuccess : ({} : ReplySender).message.desc.getError = false := by decide
  cases h with
  | reply rs hrs => exact ⟨hrs.keys, .inl rfl⟩
  | noInvalidate rs _ _ hrs => exact ⟨hrs.keys, .inr rfl⟩
  | readKey | clientKey | mint | change | makeChild | become => simp [hvalue] at herror
  | split slot =>
    change ({} : ReplySender).message.desc.getError = true at herror
    simp [hsuccess] at herror
  | _ => simp [hsuccess] at herror

end

/-! ## What a refused call leaves -/

namespace KState

/-- Stored keys are as before, or empty. -/
def Retains (s s' : KState) : Prop :=
  ∀ loc, s'.keyAt loc = s.keyAt loc ∨ (s'.keyAt loc).Blank

/-- Only Context `c` has changed: its registers, the brand of its next reply key, and its place in
lists. -/
structure OnlyCaller (c : TableIndex) (s s' : KState) : Prop where
  outside : Outside (· = c) s s'
  kind : s'.kind = s.kind
  generation : s'.generation = s.generation
  memory : s'.memory = s.memory
  ram : s'.ram = s.ram
  irqTable : s'.irqTable = s.irqTable
  irqEnabled : s'.irqEnabled = s.irqEnabled
  keys : s.Retains s'
  priority : (s'.context c).priority = (s.context c).priority

variable {s s' s'' : KState} {c : TableIndex}

theorem Retains.refl (s : KState) : s.Retains s := fun _ => .inl rfl

theorem Retains.trans (h : s.Retains s') (h' : s'.Retains s'') : s.Retains s'' := fun loc => by
  rcases h' loc with hkeep | hblank
  · rw [hkeep]
    exact h loc
  · exact .inr hblank

theorem Retains.of_keyAt (h : s'.keyAt = s.keyAt) : s.Retains s' := fun loc => .inl (congrFun h loc)

theorem Retains.dropped (s : KState) (l : KeyLoc) : s.Retains (s.dropped l) := fun loc => by
  unfold KState.dropped
  split
  · exact .inl rfl
  · by_cases hloc : loc = l
    · exact .inr (by rw [hloc, keyAt_setKeyAt]; exact blank_nullKey s)
    · exact .inl (keyAt_setKeyAt_of_ne hloc _)

/-- Empty keys arrive. -/
theorem Retains.deposit (s : KState) (map : Word) {ks : Keys} (hks : ∀ i, ks i = {}) :
    s.Retains (s.deposit (.bank c map) ks) := fun loc => by
  cases loc with
  | keyReg x r =>
    by_cases hx : x = c
    · subst hx
      have hkey : (s.deposit (.bank x map) ks).keyAt (.keyReg x r) =
          storeKeys (s.context x).keys map ks r := by
        simp [KState.deposit, keyAt]
      rw [hkey]
      rcases storeKeys_cases (s.context x).keys map ks r with hkeep | ⟨-, i, hstored⟩
      · exact .inl hkeep
      · exact .inr (by rw [hstored, hks]; exact ⟨rfl, .inl rfl⟩)
    · exact .inl (by simp [KState.deposit, keyAt, hx])
  | regionReg x r => exact .inl (by by_cases hx : x = c <;> simp [KState.deposit, keyAt, hx])
  | target i => exact .inl rfl

namespace OnlyCaller

theorem trans (h : OnlyCaller c s s') (h' : OnlyCaller c s' s'') : OnlyCaller c s s'' where
  outside := h.outside.trans h'.outside fun loc hlive => by rwa [isLive, ← h'.generation]
  kind := h'.kind.trans h.kind
  generation := h'.generation.trans h.generation
  memory := h'.memory.trans h.memory
  ram := h'.ram.trans h.ram
  irqTable := h'.irqTable.trans h.irqTable
  irqEnabled := h'.irqEnabled.trans h.irqEnabled
  keys := h.keys.trans h'.keys
  priority := h'.priority.trans h.priority

/-- What happens to the caller's body, and to lists. -/
theorem of_bodies (hobjects : s'.objects = s.objects)
    (hcontext : ∀ x, x ≠ c → s'.context x = s.context x)
    (hinterrupt : s'.interrupt = s.interrupt)
    (hqueues : ∀ l p, others (· = c) (s'.queues l p) = others (· = c) (s.queues l p))
    (hkeys : s.Retains s') (hpriority : (s'.context c).priority = (s.context c).priority) :
    OnlyCaller c s s' where
  outside := .of_bodies hobjects hcontext (fun i _ => congrFun hinterrupt i) hqueues
  kind := kind_of_objects hobjects
  generation := generation_of_objects hobjects
  memory := memory_of_objects hobjects
  ram := congrArg Objects.ram hobjects
  irqTable := congrArg Objects.irqTable hobjects
  irqEnabled := congrArg Objects.irqEnabled hobjects
  keys := hkeys
  priority := hpriority

theorem record (s : KState) (ev : Event) : OnlyCaller c s (s.record ev) :=
  .of_bodies rfl (fun _ _ => rfl) rfl (fun _ _ => rfl) (.of_keyAt rfl) rfl

/-- The caller moves to another seat. -/
theorem reseat (s : KState) (c : TableIndex) (seat : Seat) : OnlyCaller c s (s.reseat c seat).pend := by
  refine .of_bodies (by simp) (fun x hx => Function.update_of_ne hx _ _) rfl
    (others_reseat (R := (· = c)) rfl s seat) (.of_keyAt ?_) ?_
  · simp
  · simp [KState.reseat, pend]

/-- The caller's registers are written. -/
theorem updateContext (s : KState) (c : TableIndex) {f : Context → Context}
    (hkeys : (f (s.context c)).keys = (s.context c).keys)
    (hregions : (f (s.context c)).regions = (s.context c).regions)
    (hpriority : (f (s.context c)).priority = (s.context c).priority) :
    OnlyCaller c s (s.updateContext c f) := by
  refine .of_bodies (objects_updateContext s c f) (fun x hx => Function.update_of_ne hx _ _) rfl
    (fun _ _ => rfl) (.of_keyAt (keyAt_updateContext hkeys hregions)) ?_
  simpa [KState.updateContext] using hpriority

theorem dropped (s : KState) (c : TableIndex) (i : Fin nTaskKeys) :
    OnlyCaller c s (s.dropped (.keyReg c i)) := by
  have hkeys : s.Retains (s.dropped (.keyReg c i)) := .dropped s _
  unfold KState.dropped at hkeys ⊢
  split
  · exact .of_bodies rfl (fun _ _ => rfl) rfl (fun _ _ => rfl) (.refl s) rfl
  next hdead =>
    rw [if_neg hdead] at hkeys
    refine .of_bodies (objects_setKeyAt s _ _) (fun x hx => context_setKeyAt_of_ne hx _) rfl
      (fun _ _ => rfl) hkeys ?_
    simp [setKeyAt]

theorem svcSending (s : KState) (stack : Word) (regs : UserRegisters) :
    OnlyCaller s.current s (s.svcSending stack regs) := by
  have hentered : OnlyCaller s.current s (s.entered stack regs) := updateContext s s.current rfl rfl rfl
  exact ((hentered.trans (dropped _ _ 0)).trans (dropped _ _ _)).trans (record _ _)

theorem informed (s : KState) (c : TableIndex) (sender : Option TableIndex) (m : Message) (b : Brand) :
    OnlyCaller c s (s.informed c sender m b) :=
  (updateContext s c rfl rfl rfl).trans (record _ _)

/-- A reply without keys arrives. -/
theorem replied (s : KState) (c : TableIndex) {rs : ReplySender} (hkeys : ∀ i, rs.keys i = {}) :
    OnlyCaller c s (s.replied c rs) := by
  have hadvanced : OnlyCaller c s (s.advanceReply c) := (updateContext s c rfl rfl rfl).trans (record _ _)
  have hanswered : OnlyCaller c s (s.answered c (s.context c).expectedReplyBrand) :=
    (hadvanced.trans (record _ _)).trans (reseat _ c .runnable)
  have hdeposited : ∀ t : KState, OnlyCaller c t (t.deposit (.bank c ((s.context c).save 7)) rs.keys) := by
    intro t
    refine .of_bodies rfl (fun x hx => Function.update_of_ne hx _ _) rfl (fun _ _ => rfl)
      (.deposit t _ hkeys) ?_
    simp [KState.deposit, KState.updateContext]
  exact (hanswered.trans (hdeposited _)).trans (informed _ c none rs.message _)

theorem switches (h : Switches s s') : OnlyCaller c s s' := by
  cases h with
  | stays => exact .of_bodies rfl (fun _ _ => rfl) rfl (fun _ _ => rfl) (.refl s) rfl
  | elects x =>
    have hidle : Outside (· = c) s ({ s with switchPending := false } : KState) :=
      .of_bodies rfl (fun _ _ => rfl) (fun _ _ => rfl) fun _ _ => rfl
    exact
      { outside := hidle.trans_of_keys (outside_switchTo _ x) fun _ _ _ => rfl
        kind := rfl
        generation := rfl
        memory := rfl
        ram := rfl
        irqTable := rfl
        irqEnabled := rfl
        keys := keyAt_switchTo ({ s with switchPending := false } : KState) x
        priority := by by_cases hx : c = x <;> simp [switchTo, loadMpu, hx] }

end OnlyCaller

end KState

/-! ## Refused calls in a run -/

namespace Sample

/-- Keys to the Slot of entry 7 and the Memory of entry 3. -/
def donating : List Action := [
  call 1 1 7#32 0#32 0#32 0#32 0x20#32,
  call 1 1 3#32 0x30000#32 0#32 0#32 0x30#32]

/-- Split of the Memory, beyond its end. -/
def oversplitting : UserRegisters :=
  registers (descriptor 3 3 0 true true false) 0x600#32 0#32 0#32 0x20#32 0#32

end Sample

end BrittleKernel
