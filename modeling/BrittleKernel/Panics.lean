import Mathlib
import BrittleKernel.Elections
import BrittleKernel.Isolation
import BrittleKernel.OneShot
import BrittleKernel.Routing
import BrittleKernel.MemoryBrand

/-!
# Panics

The consistency checks of the kernel that a step can run into once the kernel is up.  Of the many
checks only a few can fail: three methods of Memory let some requests through, an Interrupt that
lost its place in the redirection table can be enabled, a forged reply key can be honoured, and the
last runnable Context can block.
-/

namespace BrittleKernel

open Hoare KState

/-! ## Requests that break a check -/

/-- What Memory object `e`, called with brand `b`, lets through up to a failing check. -/
inductive KState.Breaks (etl : Etl) (s : KState) (e : TableIndex) (b : Brand) (m : Message) :
    Panic → Prop where
  /-- Make Child of a range that passes for one within the object, but ends past the last address. -/
  | childWraps : s.kind e = .memory →
      MemoryMethod.ofSelector m.desc.getSelector = some .makeChild →
      Rasr.getSrd ((s.memory e).getRegionForBrand b).rasr = 0#8 →
      Memory.contains (s.memory e).base (s.memory e).size m.d0 m.d1 = true → m.d0 + m.d1 < m.d0 →
      Breaks etl s e b m .memOverflow
  /-- Change to or from access permissions that have no meaning. -/
  | accessPermissions : s.kind e = .memory →
      MemoryMethod.ofSelector m.desc.getSelector = some .change →
      (s.memory e).isMappable = true → Rasr.getAp (scrubRasr m.d0) ≠ 4#3 →
      decodeAp etl (Rasr.getAp (scrubRasr m.d0)) = none ∨
        decodeAp etl (Rasr.getAp ((s.memory e).getRegionForBrand b).rasr) = none →
      Breaks etl s e b m .unpredictableAp
  /-- Become an Interrupt for a line that the redirection table has no room for. -/
  | lineBeyond (p : Panic) : p.isRedirection → s.BecomeAccepted e .interrupt b m →
      s.irqCount ≤ (m.d1 + 1#32).toNat → Breaks etl s e b m p

/-- The brand that an object sees on the key that the step's message goes through: what the
invoked register holds once the message has left. -/
inductive KState.Sees (s : KState) : Action → Brand → Prop where
  | svc (stack : Word) (regs : UserRegisters) : Sees s (.svc stack regs)
      ((s.svcSending stack regs).registerAfter s.current (⟨regs 0⟩ : Descriptor).getTarget).brand
  | irq {n : BitVec 9} {i : TableIndex} : s.irqTable (n.toNat - 15) = some i →
      Sees s (.irq n) (s.interrupt i).target.brand

/-- Why a step panics, and in which state. -/
inductive Cause (etl : Etl) (s : KState) (a : Action) : Panic → KState → Prop where
  | method {e : TableIndex} {b : Brand} {m : Message} {p : Panic} {s' : KState} :
      Requests s a e m → s.Sees a b → s.Breaks etl e b m p → Cause etl s a p s'
  /-- A line is enabled whose Interrupt has lost its place. -/
  | unrouted {n : BitVec 9} {s' : KState} : a = .irq n → s.irqEnabled (lineOf n.toNat) = true →
      s.irqTable (n.toNat - 15) = none → Cause etl s a .nullRedirectorEntry s'
  /-- Mint Key made a reply key, or a counter went around. -/
  | reply {s' : KState} : ¬(s'.Quiet ∧ s'.Unturned) → Cause etl s a .notAwaitingReply s'
  /-- No Context is left to run. -/
  | idle {s' : KState} : (∀ c, ¬s'.Sits c .runnable) → Cause etl s a .noRunnable s'

section

variable {cfg : Config} {etl : Etl} {app : AppInfo} {s s' : KState} {e : TableIndex} {b : Brand}
  {m : Message} {k : Keys} {p : Panic}

/-- The other ways in which a method can fail are ruled out by the Memory tree and by the places of
the Interrupts. -/
theorem Fault.breaks (h : Fault (.source etl) e b m k s p) (htree : s.Tree app) (hs : s.Numbered) :
    s.Breaks etl e b m p := by
  cases h with
  | splitOverflow slot hok _ hwraps =>
    -- The object itself does not wrap, and it is split within its size.
    have hformed := (htree.formed e hok.memory).noWrap
    have hfits : m.d0.toNat ≤ (s.memory e).size.toNat := hok.fits
    have hpos : ((s.memory e).base + m.d0).toNat = (s.memory e).base.toNat + m.d0.toNat := by
      rw [BitVec.toNat_add, Nat.mod_eq_of_lt (by omega)]
    rcases hwraps with htop | hbottom
    · rw [BitVec.lt_def, BitVec.toNat_add, hpos, BitVec.toNat_sub_of_le hok.fits] at htop
      omega
    · rw [BitVec.lt_def, hpos] at hbottom
      omega
  | childOverflow slot hok _ hwraps =>
    exact .childWraps hok.memory hok.method hok.whole hok.contained hwraps
  | accessPermissions he hm hmappable hap hnone => exact .accessPermissions he hm hmappable hap hnone
  | becomeInterrupt p hp hok hbeyond => exact .lineBeyond p hp hok hbeyond
  | invalidateInterrupt p _ _ _ hkind hbeyond => exact absurd (hs.inTable _ hkind) (Nat.not_lt.mpr hbeyond)

/-- Message passing before the method does not matter. -/
theorem KState.Breaks.of_untouched (h : s'.Breaks etl e b m p) (hsame : Untouched s s') :
    s.Breaks etl e b m p := by
  have hmemory := congrFun hsame.memory e
  cases h with
  | childWraps he hm hwhole hcontained hwraps =>
    rw [hsame.kind] at he
    rw [hmemory] at hwhole hcontained
    exact .childWraps he hm hwhole hcontained hwraps
  | accessPermissions he hm hmappable hap hnone =>
    rw [hsame.kind] at he
    rw [hmemory] at hmappable hnone
    exact .accessPermissions he hm hmappable hap hnone
  | lineBeyond p hp hok hbeyond =>
    obtain ⟨he, hm, hwhole, htype, hroot, hleaf, hmappable, hordinary, hfits⟩ := hok
    rw [hsame.kind] at he
    rw [hmemory] at hwhole hroot hleaf hmappable hordinary hfits
    rw [hsame.irqCount] at hbeyond
    exact .lineBeyond p hp ⟨he, hm, hwhole, htype, hroot, hleaf, hmappable, hordinary, hfits⟩ hbeyond

theorem Fault.breaks_of_untouched (h : Fault (.source etl) e b m k s' p) (hsame : Untouched s s')
    (htree : s.Tree app) (hs : s.Numbered) : s.Breaks etl e b m p :=
  (h.breaks (htree.of_sameMemories (.of_untouched hsame))
    (hs.of_sameLines (.of_untouched hsame))).of_untouched hsame

/-! ## Enabled lines -/

/-- The lines that are enabled have room in the redirection table. -/
def KState.Lined (s : KState) : Prop :=
  ∀ line, s.irqEnabled line = true → (line + 1#32).toNat < s.irqCount

theorem KState.Lined.of_sameLines (hs : s.Lined) (h : SameLines s s') : s'.Lined := by
  intro line hline
  rw [h.irqCount]
  exact hs line (h.irqEnabled line hline)

theorem Effect.lined {rs : ReplySender} (h : Effect cfg e b m k s rs s') (hs : s.Lined)
    (hnumbered : s.Numbered) : s'.Lined := by
  rcases h.lines_cases with hsame | ⟨he, -, rfl⟩ | ⟨-, -, rfl⟩ | ⟨hi, rfl⟩
  · exact hs.of_sameLines hsame
  · intro line hline
    simp only [Function.update_apply] at hline
    split at hline
    next heq => exact heq ▸ hnumbered.inTable e he
    · exact hs line hline
  · exact hs
  · -- Invalidate disables a line, and enables none.
    obtain ⟨-, -, hcount, henabled, -⟩ := invalidated_interrupt
      (s.record (.invalidateRequested m.d0 (m.d1 != 0#32))) hi
    intro line hline
    rw [henabled, Function.update_apply] at hline
    rw [hcount]
    split at hline
    · cases hline
    · exact hs line hline

theorem Reachable.lined (hcfg : cfg.eagerRevocation = false) (h : Reachable cfg app s) : s.Lined := by
  have hboth : s.Numbered ∧ s.Lined := by
    refine h.under.tables (I := fun s => s.Numbered ∧ s.Lined) hcfg (fun hboot => ⟨hboot.numbered, ?_⟩)
      (fun hsame hs => ?_) ?_
    · intro line hline
      simp [hboot.irqEnabled] at hline
    · have hlines := SameLines.of_untouched hsame
      exact ⟨hs.1.of_sameLines hlines, hs.2.of_sameLines hlines⟩
    · intro s s' t a e m k rs brand _ hs _ _ hsame _ heffect
      have hlines := SameLines.of_untouched hsame
      have hnumbered := hs.1.of_sameLines hlines
      exact ⟨heffect.numbered hnumbered, heffect.lined (hs.2.of_sameLines hlines) hnumbered⟩
  exact hboth.2

/-! ## The end of an entry -/

theorem KState.WellFormed.none_runnable (hs : s.WellFormed) (hpeek : s.peek .runnable = none)
    (c : TableIndex) : ¬s.Sits c .runnable := by
  intro hc
  have hmem := hs.mem_runnable_iff.mpr ⟨hc, rfl⟩
  simp [hs.queue_eq_nil hpeek] at hmem

/-- An entry that has done its work can only fail to find a Context to run. -/
theorem doDeferredSwitch_panics (hs : s.WellFormed) :
    wp doDeferredSwitch (fun _ _ => True)
      (fun p s' => p = .noRunnable ∧ ∀ c, ¬s'.Sits c .runnable) s := by
  refine doDeferredSwitch_spec hs (fun _ => trivial) (fun _ _ => trivial) fun hpeek => ⟨rfl, ?_⟩
  have hidle : ({ s with switchPending := false } : KState).WellFormed :=
    hs.of_sameSeats ⟨rfl, rfl, rfl, fun _ => .refl _, fun _ => .refl _⟩
  exact hidle.none_runnable hpeek

/-- Nor can a reply fail, but for a reply key that nobody awaits. -/
theorem scopedReply_panics (hcfg : cfg.eagerRevocation = false) (hs : s.WellFormed) {depth : Nat}
    {key : Key} {rs : ReplySender} (hplain : rs.Plain) :
    wp (scopedReply cfg (deliverFrom cfg (depth + 1)) key rs) (fun _ s' => s'.WellFormed)
      (fun p _ => p = .notAwaitingReply) s := by
  have hany : Confined (.any True) fun _ => True := .any fun _ _ _ => trivial
  refine wp_mono (scopedReply_acts hany hs trivial hcfg trivial hplain (fun _ => trivial)
    fun _ _ _ _ _ => rfl) (fun _ _ hacts => Acts.wellFormed hacts hs) fun _ _ h => h

/-- What can happen once Memory decides on a request. -/
theorem decideMemory_panics (hcfg : cfg.eagerRevocation = false) (hs : s.WellFormed)
    (he : s.kind e = .memory) :
    wp (decideMemory cfg e b m k) (fun _ _ => True) (fun p s' => p = .notAwaitingReply ∨
      (p = .noRunnable ∧ ∀ c, ¬s'.Sits c .runnable) ∨
        Fault cfg e b m k (s.record (.consulted e b)) p) s := by
  have hlooked : (s.record (.consulted e b)).WellFormed := hs.of_sameSeats (sameSeats_record _ _)
  simp only [decideMemory, wp_bind, wp_modify]
  refine wp_mono (memoryServe_effect hcfg he) (fun rs s₂ heffect => ?_) fun p _ hfault => .inr (.inr hfault)
  refine wp_mono (scopedReply_panics hcfg (heffect.wellFormed hlooked) heffect.plain)
    (fun _ s₃ h₃ => ?_) fun p _ hp => .inl hp
  exact wp_mono (doDeferredSwitch_panics h₃) (fun _ _ _ => trivial) fun p _ hp => .inr (.inl hp)

/-! ## Steps -/

/-- What a step of a settled kernel can run into, replies that nobody awaits apart. -/
def KState.Stops (s : KState) (etl : Etl) (a : Action) (p : Panic) (s' : KState) : Prop :=
  p = .notAwaitingReply ∨ Cause etl s a p s'

/-- A system call on Memory. -/
theorem svcEntry_memory_panics (hs : s.Settled) (htree : s.Tree app) (hnumbered : s.Numbered)
    {stack : Word} {regs : UserRegisters} (hsys : (⟨regs 0⟩ : Descriptor).getSysnum = 0)
    (hsend : (⟨regs 0⟩ : Descriptor).getSendEnabled = true)
    (hkind : s.kind (s.invoked regs) = .memory) :
    wp (svcEntry (.source etl) stack regs) (fun _ _ => True) (s.Stops etl (.svc stack regs)) s := by
  have hlive : s.isLive (s.keyAt (s.targetReg regs)) = true := by
    rcases Guarded.target_null_or_live hs.wellFormed (s.keyAt (s.targetReg regs)) with hnull | hl
    · simp [show s.kind (s.target (s.keyAt (s.targetReg regs))) = .memory from hkind] at hnull
    · exact hl.1
  have hsame := (s.sameSeats_ready stack regs).trans (sameSeats_sending _ s.current (s.targetReg regs))
  have hwf : (s.svcSending stack regs).WellFormed := hs.wellFormed.of_sameSeats hsame
  have hsits : (s.svcSending stack regs).Sits s.current .runnable := hsame.sits hs.running
  rw [wp_svcEntry_memory hs hsys hsend hlive hkind]
  -- The message leaves without a panic, and with the keys that the sender's receive phase leaves.
  have hany : Confined (.any True) fun _ => True := .any fun _ _ _ => trivial
  have hdelivery := wp_and
    (contextOnDelivery_acts hany.toGuarded (delivers_bounded hany.toGuarded trivial _) hwf trivial
      trivial hsits (Nat.lt_succ_self _) .frame trivial (by simp))
    (contextOnDelivery_registers hwf hsits (by simp))
  refine wp_mono hdelivery ?_ fun _ _ h => h.2.elim
  rintro ⟨m, k⟩ s₁ ⟨⟨hout, hacts, -⟩, hregisters⟩
  obtain rfl : m = svcMessage regs := (congrArg Prod.fst hout).trans outgoing_svcSending
  have hobjects : s₁.objects = s.objects := (Acts.objects hacts).trans objects_svcSending
  have hkind₁ : s₁.kind (s.invoked regs) = .memory := by
    rwa [kind_of_objects hobjects]
  have hbrand : s.Sees (.svc stack regs)
      (s₁.readRef ((s.svcSending stack regs).refTo (.source etl) (s.targetReg regs))) := by
    have hkeyLive : (s.svcSending stack regs).isLive ((s.svcSending stack regs).keyAt
        (s.targetReg regs)) = true := by
      rw [svcSending, keyAt_sending, isLive_of_objects (objects_sending _ _ _)]
      exact isLive_resolve _ _
    have hread : s₁.readRef ((s.svcSending stack regs).refTo (.source etl) (s.targetReg regs)) =
        ((s.svcSending stack regs).registerAfter s.current (⟨regs 0⟩ : Descriptor).getTarget).brand :=
      congrArg Key.brand (hregisters _ hkeyLive)
    rw [hread]
    exact .svc stack regs
  refine wp_mono (decideMemory_panics rfl (Acts.wellFormed hacts hwf) hkind₁) (fun _ _ h => h) ?_
  rintro p s' (rfl | ⟨rfl, hidle⟩ | hfault)
  · exact .inl rfl
  · exact .inr (.idle hidle)
  · have hbefore : Untouched s (s₁.record (.consulted (s.invoked regs)
        (s₁.readRef ((s.svcSending stack regs).refTo (.source etl) (s.targetReg regs))))) :=
      ((Untouched.svcSending s stack regs).trans (Acts.untouched hacts)).trans
        (.of_objects rfl (fun _ => rfl) rfl)
    exact .inr (.method (.svc hsys hsend) hbrand (hfault.breaks_of_untouched hbefore htree hnumbered))

/-- What message passing leaves of an Interrupt's target key. -/
theorem Act.target_kept {A : Authority} (h : Act A s s') {i : TableIndex}
    (hlive : s.isLive (s.interrupt i).target = true) :
    (s'.interrupt i).target = (s.interrupt i).target := by
  cases h with
  | drop loc _ _ hstale =>
    cases loc with
    | target j =>
      have hne : i ≠ j := by
        rintro rfl
        rw [keyAt, hlive] at hstale
        cases hstale
      exact congrArg Interrupt.target (Function.update_of_ne hne _ _)
    | _ => rfl
  | takeIrq j | blockIrq j =>
    by_cases hj : i = j <;> simp [requeue, saveIrqBrand, hj]
  | deposit dst => cases dst <;> rfl
  | call c dst => cases dst <;> rfl
  | _ => rfl

/-- No method of any other object fails. -/
theorem Fault.at_memory (h : Fault cfg e b m k s p) (hs : s.Numbered) : s.kind e = .memory := by
  cases h with
  | splitOverflow slot hok => exact hok.memory
  | childOverflow slot hok => exact hok.memory
  | accessPermissions he => exact he
  | becomeInterrupt p hp hok => exact hok.memory
  | invalidateInterrupt p _ _ _ hkind hbeyond => exact absurd (hs.inTable _ hkind) (Nat.not_lt.mpr hbeyond)

/-- A system call that sends nothing to Memory. -/
theorem svcEntry_panics (hs : s.Settled) (hnumbered : s.Numbered) {stack : Word} {regs : UserRegisters}
    (hkind : (⟨regs 0⟩ : Descriptor).getSendEnabled = true → s.kind (s.invoked regs) ≠ .memory) :
    wp (svcEntry (.source etl) stack regs) (fun _ _ => True) (s.Stops etl (.svc stack regs)) s := by
  have hrules : Rules (.source etl) (.any True) (.any True) (Untouched s) (fun _ => True)
      (SvcRequest (.source etl) s stack regs) (s.Stops etl (.svc stack regs)) := by
    refine Rules.any (fun _ h hact => h.trans hact.untouched) (fun _ _ _ => trivial) (fun _ _ => trivial)
      (fun _ _ _ _ => trivial) (fun _ hsame hreq _ hfault s' => ?_) fun _ => .inl rfl
    obtain ⟨hsend, htarget, -⟩ := hreq
    have hmemory := hfault.at_memory (hnumbered.of_sameLines (.of_untouched hsame))
    rw [hsame.kind, htarget, target_keyAt_ready] at hmemory
    exact absurd hmemory (hkind hsend)
  refine hrules.svc rfl hs.wellFormed (.refl s) trivial trivial hs.running
    (fun h => absurd hs.null_register0 h) (fun s' hwf _ => ?_) (fun _ _ _ => trivial) trivial
  exact wp_mono (doDeferredSwitch_panics hwf) (fun _ _ _ => trivial) fun _ _ ⟨hp, hidle⟩ =>
    hp ▸ .inr (.idle hidle)

/-- An exception on an enabled line. -/
theorem irqRedirector_panics (hs : s.Settled) (htree : s.Tree app) (hnumbered : s.Numbered)
    (hlined : s.Lined) {n : BitVec 9} (hn : n.toNat ≥ 15)
    (hline : s.irqEnabled (lineOf n.toNat) = true) :
    wp (irqRedirector (.source etl) n.toNat) (fun _ _ => True) (s.Stops etl (.irq n)) s := by
  have hroom := hlined _ hline
  rw [lineOf_entry hn] at hroom
  refine irqRedirector_spec (F := fun _ => True) hn (fun hbeyond => absurd hroom (Nat.not_lt.mpr hbeyond))
    (fun hnone _ => .inr (.unrouted rfl hline hnone)) fun i hi _ => ?_
  have hmasked : Untouched s (s.masked i) := .masked s i
  have hrules : Rules (.source etl) (.any True) (.any True)
      (fun t => Untouched s t ∧ (s.isLive (s.interrupt i).target = true →
        (t.interrupt i).target = (s.interrupt i).target))
      (fun _ => True) (IrqRequest (.source etl) s i) (s.Stops etl (.irq n)) := by
    refine Rules.any (fun {t t'} _ h hact => ⟨h.1.trans hact.untouched, fun hlive => ?_⟩)
      (fun _ _ _ => trivial) (fun _ _ => trivial) (fun _ _ _ _ => trivial)
      (fun {t e b m k kind p} _ h hreq _ hfault s' => ?_) fun _ => .inl rfl
    · have hstill : t.isLive (t.interrupt i).target = true := by
        rw [isLive, h.1.generation, h.2 hlive]
        exact hlive
      exact (hact.target_kept hstill).trans (h.2 hlive)
    · obtain ⟨rfl, hb, rfl, -, -⟩ := hreq
      have hmemory := hfault.at_memory (hnumbered.of_sameLines (.of_untouched h.1))
      rw [h.1.kind] at hmemory
      -- A key to Memory is live, and stays where it is.
      have hlive : s.isLive (s.interrupt i).target = true := by
        rcases Guarded.target_null_or_live hs.wellFormed (s.interrupt i).target with hnull | hl
        · simp [hmemory] at hnull
        · exact hl.1
      have hsees : s.Sees (.irq n) b := by
        have hbrand : b = (s.interrupt i).target.brand :=
          hb.trans (congrArg Key.brand (h.2 hlive))
        exact hbrand ▸ .irq hi
      exact .inr (.method (.irq hi) hsees (hfault.breaks_of_untouched h.1 htree hnumbered))
  exact wp_mono (hrules.trigger rfl hs.wellFormed ⟨hmasked, fun _ => rfl⟩ trivial (hs.irqTable _ i hi))
    (fun _ _ _ => ⟨fun _ => trivial, fun _ => trivial⟩) fun _ _ h => h

/-- Every step of a settled kernel. -/
theorem step_panics (hs : s.Settled) (htree : s.Tree app) (hnumbered : s.Numbered) (hlined : s.Lined)
    (a : Action) : wp (step (.source etl) a) (fun _ _ => True) (s.Stops etl a) s := by
  refine step_spec (F := fun _ => True) (fun stack regs ha => ?_) (fun n ha hn hline => ?_)
    (fun stack regs _ _ => ?_) (fun _ _ _ _ => trivial) trivial
  · subst ha
    by_cases hsys : (⟨regs 0⟩ : Descriptor).getSysnum = 0
    · by_cases hmemory : (⟨regs 0⟩ : Descriptor).getSendEnabled = true ∧ s.kind (s.invoked regs) = .memory
      · exact svcEntry_memory_panics hs htree hnumbered hsys hmemory.1 hmemory.2
      · exact svcEntry_panics hs hnumbered fun hsend hkind => hmemory ⟨hsend, hkind⟩
    · -- Copy Key checks nothing.
      simp [svcEntry, hsys, Context.doKeyOp, wp_ite]
  · subst ha
    exact irqRedirector_panics hs htree hnumbered hlined hn hline
  · -- PendSV finds at least the Context that it interrupted.
    refine pendSvEntry_spec hs.wellFormed (fun _ _ => trivial) fun hpeek => ?_
    exact absurd hs.running (hs.wellFormed.none_runnable hpeek _)

end

/-- A child that ends below its start. -/
def Sample.wrapping : Action := call 7 2 0x20001440#32 0xffffffe0#32 0#32 0x30#32 0x40#32

end BrittleKernel
