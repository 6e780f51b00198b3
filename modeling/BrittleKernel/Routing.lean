import Mathlib
import BrittleKernel.Methods

/-!
# Interrupt Routing

The Interrupt objects, the redirection table and the enabled lines have to stay in step.
Every Interrupt has a place in the table, and every entry designates an Interrupt with that
place; but Invalidate clears an entry whose Interrupt stays, and Enable does not look at it.
-/

namespace BrittleKernel

open Hoare KState

namespace KState

/-- Every Interrupt's identifier is within the redirection table, and the table's entries are
where their Interrupts' identifiers say. -/
structure Numbered (s : KState) : Prop where
  inTable : ∀ i, s.kind i = .interrupt → ((s.interrupt i).identifier + 1#32).toNat < s.irqCount
  entry : ∀ n i, s.irqTable n = some i →
    s.kind i = .interrupt ∧ ((s.interrupt i).identifier + 1#32).toNat = n

/-- Every line that is enabled has an entry in the redirection table. -/
def Wired (s : KState) : Prop :=
  ∀ line, s.irqEnabled line = true → s.irqTable (line + 1#32).toNat ≠ none

/-- The interrupt lines and their handlers are the same. -/
structure SameLines (s s' : KState) : Prop where
  irqTable : s'.irqTable = s.irqTable
  irqCount : s'.irqCount = s.irqCount
  irqEnabled : ∀ line, s'.irqEnabled line = true → s.irqEnabled line = true
  identifier : ∀ i, (s'.interrupt i).identifier = (s.interrupt i).identifier
  kind : ∀ i, s'.kind i = .interrupt ↔ s.kind i = .interrupt

variable {s s' : KState}

theorem SameLines.of_untouched (h : Untouched s s') : SameLines s s' :=
  ⟨h.irqTable, h.irqCount, h.irqEnabled, h.identifier, fun i => by rw [h.kind]⟩

theorem Numbered.of_sameLines (hs : s.Numbered) (h : SameLines s s') : s'.Numbered where
  inTable i hi := by
    rw [h.identifier, h.irqCount]
    exact hs.inTable i ((h.kind i).mp hi)
  entry n i hi := by
    rw [h.irqTable] at hi
    rw [h.identifier, h.kind]
    exact hs.entry n i hi

theorem Wired.of_sameLines (hs : s.Wired) (h : SameLines s s') : s'.Wired := by
  intro line hline
  rw [h.irqTable]
  exact hs line (h.irqEnabled line hline)

/-- Different lines have different entries. -/
theorem entry_injective {line line' : Word} (h : (line + 1#32).toNat = (line' + 1#32).toNat) :
    line = line' := by
  have heq : line + 1#32 = line' + 1#32 := BitVec.eq_of_toNat_eq h
  simpa using congrArg (· - 1#32) heq

end KState

/-! ## Methods -/

section

variable {cfg : Config} {e : TableIndex} {brand : Brand} {m : Message} {k : Keys} {s s' : KState}
  {rs : ReplySender}

/-- Invalidate of an Interrupt disables its line and clears its place in the table. -/
theorem invalidated_interrupt (s : KState) {n : TableIndex} (hn : s.kind n = .interrupt) :
    (s.invalidated n).kind = s.kind ∧
      (s.invalidated n).irqTable =
        Function.update s.irqTable ((s.interrupt n).identifier + 1#32).toNat none ∧
      (s.invalidated n).irqCount = s.irqCount ∧
      (s.invalidated n).irqEnabled =
        Function.update s.irqEnabled (s.interrupt n).identifier false ∧
      ∀ i, ((s.invalidated n).interrupt i).identifier = (s.interrupt i).identifier := by
  simp only [KState.invalidated, invalidationHook, hn]
  refine ⟨rfl, rfl, rfl, rfl, fun i => ?_⟩
  by_cases hi : i = n <;> simp [requeue, hi]

/-- Only three methods have to do with interrupt lines: Enable, Become, and Invalidate of an
Interrupt. -/
theorem Effect.lines_cases (h : Effect cfg e brand m k s rs s') :
    SameLines s s' ∨
      s.kind e = .interrupt ∧ InterruptMethod.ofSelector m.desc.getSelector = some .enable ∧
        s' = { s with irqEnabled := Function.update s.irqEnabled (s.interrupt e).identifier true } ∨
      s.kind e = .memory ∧ (m.d1 + 1#32).toNat < s.irqCount ∧ s' = s.becomeObject e .interrupt m.d1 ∨
      s.kind m.d0.toNat = .interrupt ∧
        s' = (s.record (.invalidateRequested m.d0 (m.d1 != 0#32))).invalidated m.d0.toNat := by
  have hsame : ∀ {t : KState}, t.irqTable = s.irqTable → t.irqCount = s.irqCount →
      t.irqEnabled = s.irqEnabled → t.interrupt = s.interrupt →
      (∀ i, t.kind i = .interrupt ↔ s.kind i = .interrupt) → SameLines s t :=
    fun h₁ h₂ h₃ h₄ h₅ => ⟨h₁, h₂, fun _ => h₃ ▸ id, fun _ => by rw [h₄], h₅⟩
  cases h with
  | enable he hm => exact .inr (.inl ⟨he, hm, rfl⟩)
  | invalidate he hm =>
    by_cases hi : s.kind m.d0.toNat = .interrupt
    · exact .inr (.inr (.inr ⟨hi, rfl⟩))
    · left
      simp only [invalidated, invalidationHook]
      split
      · exact hsame rfl rfl rfl rfl fun _ => Iff.rfl
      · split
        · exact hsame rfl rfl rfl rfl fun _ => Iff.rfl
        · exact hsame rfl rfl rfl rfl fun _ => Iff.rfl
      next h => exact absurd h hi
      · exact hsame rfl rfl rfl rfl fun _ => Iff.rfl
  | become t hok hrange =>
    have hnot : s.kind e ≠ .interrupt := by simp [hok.memory]
    cases t with
    | interrupt => exact .inr (.inr (.inl ⟨hok.memory, hrange rfl, rfl⟩))
    | context | gate =>
      refine .inl (hsame rfl rfl rfl rfl fun i => ?_)
      by_cases hi : i = e <;> simp [becomeObject, buildObject, hi, hok.memory]
  | split slot hok =>
    refine .inl (hsame (by simp [splitMemory]) (by simp [splitMemory]) (by simp [splitMemory])
      (by simp [splitMemory]) fun i => ?_)
    by_cases he : i = e
    · simp [splitMemory, he, hok.memory]
    · by_cases hslot : i = slot
      · subst hslot
        simp [splitMemory, he, hok.slot]
      · simp [splitMemory, he, hslot]
  | makeChild slot hok =>
    refine .inl (hsame (by simp [makeChildMemory]) (by simp [makeChildMemory])
      (by simp [makeChildMemory]) (by simp [makeChildMemory]) fun i => ?_)
    by_cases hslot : i = slot <;> simp [makeChildMemory, hslot, hok.slot]
  | writeKey | setTarget => exact .inl (.of_untouched (.setKeyAt _ _ _))
  | writeRegion r =>
    left
    split
    · exact .of_untouched ((Untouched.setKeyAt s (.regionReg e r) (k 1)).trans
        (.loadMpu _ _))
    · exact .of_untouched (.setKeyAt _ _ _)
  | _ => exact .inl ⟨rfl, rfl, fun _ h => h, fun _ => rfl, fun _ => Iff.rfl⟩

theorem Effect.numbered (h : Effect cfg e brand m k s rs s') (hs : s.Numbered) : s'.Numbered := by
  rcases h.lines_cases with hsame | ⟨-, -, rfl⟩ | ⟨he, hrange, rfl⟩ | ⟨hi, rfl⟩
  · exact hs.of_sameLines hsame
  · exact ⟨hs.inTable, hs.entry⟩
  · -- A new Interrupt takes the place of its number.
    have hident : ∀ i, ((s.becomeObject e .interrupt m.d1).interrupt i).identifier =
        if i = e then m.d1 else (s.interrupt i).identifier := by
      intro i
      by_cases hi : i = e <;> simp [becomeObject, buildObject, hi]
    have hkind : ∀ i, i ≠ e → (s.becomeObject e .interrupt m.d1).kind i = s.kind i := by
      intro i hi
      simp [becomeObject, buildObject, hi]
    refine ⟨fun i hi => ?_, fun n i hn => ?_⟩
    · rw [hident]
      split
      · exact hrange
      next hne => exact hs.inTable i (hkind i hne ▸ hi)
    · have htable : (s.becomeObject e .interrupt m.d1).irqTable =
          Function.update s.irqTable (m.d1 + 1#32).toNat (some e) := rfl
      rw [htable, Function.update_apply] at hn
      rw [hident]
      split at hn
      next hplace =>
        obtain rfl := Option.some.inj hn
        rw [if_pos rfl]
        exact ⟨by simp [becomeObject, buildObject], hplace.symm⟩
      · obtain ⟨hold, hplace⟩ := hs.entry n i hn
        have hne : i ≠ e := by
          rintro rfl
          simp [he] at hold
        rw [if_neg hne]
        exact ⟨(hkind i hne).trans hold, hplace⟩
  · -- Invalidate clears an entry.
    obtain ⟨hkind, htable, hcount, -, hident⟩ := invalidated_interrupt
      (s.record (.invalidateRequested m.d0 (m.d1 != 0#32))) hi
    refine ⟨fun i hi => ?_, fun x i hx => ?_⟩
    · rw [hident, hcount]
      exact hs.inTable i (hkind ▸ hi)
    · rw [htable, Function.update_apply] at hx
      split at hx
      · cases hx
      · rw [hident, hkind]
        exact hs.entry x i hx

/-- A method leaves every enabled line with an entry, unless it enables a line that has none. -/
theorem Effect.wired (h : Effect cfg e brand m k s rs s') (hs : s.Wired)
    (hroute : s.kind e = .interrupt → InterruptMethod.ofSelector m.desc.getSelector = some .enable →
      s.irqTable ((s.interrupt e).identifier + 1#32).toNat ≠ none) : s'.Wired := by
  rcases h.lines_cases with hsame | ⟨he, hm, rfl⟩ | ⟨he, hrange, rfl⟩ | ⟨hi, rfl⟩
  · exact hs.of_sameLines hsame
  · intro line hline
    simp only [Function.update_apply] at hline
    split at hline
    next heq => exact heq ▸ hroute he hm
    · exact hs line hline
  · intro line hline
    have htable : (s.becomeObject e .interrupt m.d1).irqTable =
        Function.update s.irqTable (m.d1 + 1#32).toNat (some e) := rfl
    rw [htable, Function.update_apply]
    split
    · simp
    · exact hs line hline
  · -- The line whose entry is cleared is disabled, and no other line has that entry.
    obtain ⟨-, htable, -, henabled, -⟩ := invalidated_interrupt
      (s.record (.invalidateRequested m.d0 (m.d1 != 0#32))) hi
    intro line hline
    rw [henabled, Function.update_apply] at hline
    split at hline
    · cases hline
    next hother =>
      rw [htable, Function.update_of_ne fun heq => hother (entry_injective heq)]
      exact hs line hline

end

/-! ## Runs -/

/-- In this step an Interrupt is asked to enable its line, and its place in the redirection
table is empty. -/
def KState.EnablesUnrouted (s : KState) (a : Action) : Prop :=
  ∃ e m, Requests s a e m ∧ s.kind e = .interrupt ∧
    InterruptMethod.ofSelector m.desc.getSelector = some .enable ∧
    s.irqTable ((s.interrupt e).identifier + 1#32).toNat = none

section

variable {cfg : Config} {app : AppInfo} {s : KState}

theorem Booted.numbered (h : Booted app s) : s.Numbered where
  inTable i hi := by
    rw [h.kind] at hi
    simp only [AppInfo.bootKind] at hi
    split_ifs at hi
  entry n i hi := by simp [h.irqTable] at hi

theorem Booted.wired (h : Booted app s) : s.Wired := by
  intro line hline
  simp [h.irqEnabled] at hline

theorem Reachable.numbered (hcfg : cfg.eagerRevocation = false) (h : Reachable cfg app s) :
    s.Numbered :=
  h.under.tables hcfg (fun hboot => hboot.numbered)
    (fun hsame hs => hs.of_sameLines (.of_untouched hsame))
    fun _ hs _ _ hsame _ heffect => heffect.numbered (hs.of_sameLines (.of_untouched hsame))

theorem ReachableUnder.wired (hcfg : cfg.eagerRevocation = false)
    (h : ReachableUnder cfg app (fun s a => ¬s.EnablesUnrouted a) s) : s.Wired := by
  refine h.tables hcfg (fun hboot => hboot.wired)
    (fun hsame hs => hs.of_sameLines (.of_untouched hsame)) ?_
  intro s s' t a e m k rs brand _ hs hok hrequest hsame _ heffect
  refine heffect.wired (hs.of_sameLines (.of_untouched hsame)) fun he hm hnone => ?_
  rw [hsame.kind] at he
  rw [hsame.irqTable, hsame.identifier] at hnone
  exact hok ⟨e, m, hrequest, he, hm, hnone⟩

/-- Every enabled line has its handler. -/
structure KState.Routes (cfg : Config) (s : KState) : Prop where
  handler : ∀ line, s.irqEnabled line = true → ∃ i, s.irqTable (line + 1#32).toNat = some i ∧
    s.kind i = .interrupt ∧ (s.interrupt i).identifier = line
  inTable : ∀ i, s.kind i = .interrupt → ((s.interrupt i).identifier + 1#32).toNat < s.irqCount
  /-- The redirector finds it. -/
  taken : ∀ n s', BrittleKernel.step cfg (.irq n) s ≠ .error .nullRedirectorEntry s'

/-- The entry that an exception is looked up in is that of its line. -/
theorem lineOf_entry {n : BitVec 9} (hn : n.toNat ≥ 15) :
    (lineOf n.toNat + 1#32).toNat = n.toNat - 15 := by
  have hlt := n.isLt
  simp only [lineOf, BitVec.sub_add_cancel, BitVec.toNat_ofNat]
  omega

theorem irq_handled (hcfg : cfg.eagerRevocation = false) (hs : s.Settled) (hwired : s.Wired)
    (n : BitVec 9) :
    wp (BrittleKernel.step cfg (.irq n)) (fun _ _ => True) (fun p _ => p ≠ .nullRedirectorEntry) s := by
  simp only [BrittleKernel.step, wp_bind, wp_get, wp_ite, wp_pure]
  refine ⟨fun hline => ?_, fun _ => trivial⟩
  obtain ⟨hn, henabled⟩ := hline
  have hentry := hwired _ henabled
  rw [lineOf_entry hn] at hentry
  refine irqRedirector_spec (F := fun _ => True) hn ?_ (fun hnone => absurd hnone hentry) fun i hi _ => ?_
  · rintro - p (rfl | rfl) <;> simp
  · refine trigger_outcome (F := fun s' => (s'.switchPending = false → True) ∧
      (s'.switchPending = true → True)) hcfg hs.wellFormed (hs.irqTable _ i hi) ?_ (by simp) (by simp)
    rintro p - hp rfl
    simp [Panic.isServed] at hp

/-- In every run in which no Interrupt that has lost its place in the table is enabled, every
enabled line has its handler. -/
theorem ReachableUnder.routes {etl : Etl} {app : AppInfo} {s : KState}
    (h : ReachableUnder (.source etl) app (fun s a => ¬s.EnablesUnrouted a) s) :
    s.Routes (.source etl) where
  handler line hline := by
    have hnumbered := h.reachable.numbered rfl
    cases hentry : s.irqTable (line + 1#32).toNat with
    | none => exact absurd hentry (h.wired rfl line hline)
    | some i =>
      obtain ⟨hkind, hplace⟩ := hnumbered.entry _ i hentry
      exact ⟨i, rfl, hkind, entry_injective hplace⟩
  inTable := (h.reachable.numbered rfl).inTable
  taken n s' hstep :=
    wp_error (irq_handled rfl (h.reachable.settled rfl) (h.wired rfl) n) hstep rfl

/-! ### Runs of the sample application -/

/-- The message is an Enable if an Interrupt serves it. -/
def Action.enables : Action → Bool
  | .svc _ regs => InterruptMethod.ofSelector (svcMessage regs).desc.getSelector == some .enable
  | _ => false

theorem KState.not_enablesUnrouted {a : Action} (h : a.enables = false) : ¬s.EnablesUnrouted a := by
  rintro ⟨e, m, hrequest, -, hm, -⟩
  cases hrequest with
  | svc => simp [Action.enables, hm] at h
  | irq =>
    have hselector : InterruptMethod.ofSelector
        (Descriptor.zero.withSelector 1#16).getSelector = some .enable := hm
    exact absurd hselector (by decide)

/-- Entry 6 becomes the Interrupt of line 0. -/
def Sample.interrupt : List Action := [
  Sample.call 1 1 6#32 0x30000#32 0#32 0#32 0x20#32,
  Sample.call 4 2 2#32 0#32 0#32 0#32 0x20#32]

/-- The Interrupt is enabled while it has its place. -/
theorem routes_sample : ∃ s : KState,
    ReachableUnder (.source Sample.etl) Sample.app (fun s a => ¬s.EnablesUnrouted a) s ∧
      s.irqEnabled 0#32 = true ∧ s.Routes (.source Sample.etl) := by
  let regs := Sample.registers (Sample.descriptor 2 2 0 true true false) 0#32 0#32 0#32 0#32 0#32
  have hrun : Sample.passes (fun s =>
      s.irqTable ((s.interrupt (s.invoked regs)).identifier + 1#32).toNat == some 6 &&
        Sample.passes (fun s' => s'.irqEnabled 0#32)
          (BrittleKernel.step (.source Sample.etl) (.svc Sample.stack regs) s))
      (Sample.after Sample.interrupt) = true := by decide_cbv
  obtain ⟨s, hafter, -, htest⟩ := Sample.exists_of_passes hrun
  simp only [Bool.and_eq_true, beq_iff_eq] at htest
  obtain ⟨hentry, hstep⟩ := htest
  have hplain : Sample.interrupt.all (fun a => !a.enables) = true := by decide_cbv
  have hbefore : ReachableUnder (.source Sample.etl) Sample.app (fun s a => ¬s.EnablesUnrouted a) s :=
    reachableUnder_of_bootAndRun hafter fun t a ha =>
      not_enablesUnrouted (by simpa using List.all_eq_true.mp hplain a ha)
  have hok : ¬s.EnablesUnrouted (.svc Sample.stack regs) := by
    rintro ⟨e, m, hrequest, -, -, hnone⟩
    obtain ⟨⟩ := hrequest
    rw [hentry] at hnone
    cases hnone
  cases hend : BrittleKernel.step (.source Sample.etl) (.svc Sample.stack regs) s with
  | error p s' => simp [hend, Sample.passes] at hstep
  | ok u s' =>
    rw [hend] at hstep
    have hafter := hbefore.step hok hend
    exact ⟨s', hafter, hstep, ReachableUnder.routes hafter⟩

/-- The Interrupt is invalidated, a new key to it is minted, and it is enabled again: line 0
has no handler, and the redirector panics. -/
theorem line_unrouted : ∃ s s' : KState, Reachable (.source Sample.etl) Sample.app s ∧
    s.irqEnabled 0#32 = true ∧ s.irqTable 1 = none ∧
      BrittleKernel.step (.source Sample.etl) (.irq 16#9) s = .error .nullRedirectorEntry s' := by
  have hrun : Sample.passes (fun s => s.irqEnabled 0#32 && (s.irqTable 1).isNone &&
      panicked (BrittleKernel.step (.source Sample.etl) (.irq 16#9) s) == some .nullRedirectorEntry)
      (Sample.after (Sample.interrupt ++ [
        Sample.call 4 1 6#32 0#32 0#32 0#32 0#32,
        Sample.call 1 1 6#32 0#32 0#32 0#32 0x20#32,
        Sample.call 2 2 0#32 0#32 0#32 0#32 0#32])) = true := by decide_cbv
  obtain ⟨s, -, hreach, htest⟩ := Sample.exists_of_passes hrun
  simp only [Bool.and_eq_true, beq_iff_eq, Option.isNone_iff_eq_none] at htest
  obtain ⟨⟨henabled, hnone⟩, hpanic⟩ := htest
  exact ⟨s, _, hreach, henabled, hnone, eq_error_of_panicked hpanic⟩

end

end BrittleKernel
