import BrittleKernel.Settled

/-!
# Keeping an Invariant

What an invariant must satisfy to survive a whole step of the kernel, and what this comes to
for invariants of the stored keys.
-/

namespace BrittleKernel

open Hoare KState

/-! ## Keys that stay -/

theorem KState.keyAt_of_bodies {s s' : KState} (hcontext : s'.context = s.context)
    (hinterrupt : s'.interrupt = s.interrupt) : s'.keyAt = s.keyAt := by
  funext loc
  cases loc with
  | keyReg | regionReg => simp [keyAt, hcontext]
  | target => simp [keyAt, hinterrupt]

theorem KState.keyAt_switchTo (s : KState) (c : TableIndex) (loc : KeyLoc) :
    (s.switchTo c).keyAt loc = s.keyAt loc ∨ ((s.switchTo c).keyAt loc).Blank := by
  have hcurrent : ({ s.record (.switched c) with current := c } : KState).keyAt = s.keyAt :=
    keyAt_of_bodies rfl rfl
  rw [← hcurrent]
  exact (keyAt_loadMpu c loc).imp_right fun h => h.1

/-! ## Keys of one sort -/

/-- The kernel may hold keys of one sort, and touch every object. -/
def Authority.sort (P : KState → Key → Prop) : Authority := ⟨P, fun _ => True, True⟩

/-- An authority that only restricts the keys is closed under following them. -/
theorem Confined.sort {P : KState → Key → Prop} {I : KState → Prop}
    (hnull : ∀ {s}, I s → P s s.nullKey)
    (hheld : ∀ {s} loc, I s → P s (s.keyAt loc))
    (hfilled : ∀ {s i}, s.WellFormed → I s → s.kind i = .interrupt → P s (s.filled i 0#64))
    (hreply : ∀ {s c dst}, s.WellFormed → I s → s.Sits c .runnable →
      P (((s.deposit dst (s.sentKeys c)).reseat c .awaiting).pend)
        (s.filled c (s.context c).expectedReplyBrand))
    (hact : ∀ {s s'}, s.WellFormed → I s → Act (.sort P) s s' → I s')
    (hstable : ∀ {s s' k}, s.WellFormed → I s → Act (.sort P) s s' → P s k → P s' k) :
    Confined (.sort P) I where
  null := hnull
  held loc hI _ := hheld loc hI
  gate _ _ _ _ _ _ := trivial
  deref _ _ _ _ _ := trivial
  waiting _ _ _ _ _ := trivial
  queued _ _ _ _ := trivial
  interrupt hs hI _ hkind := hfilled hs hI hkind
  reply _ hs hI _ hsits := hreply hs hI hsits
  act := hact
  stable := hstable

/-! ## Whole steps -/

section

variable {cfg : Config} {A A' : Authority} {I J : KState → Prop} {E : Panic → KState → Prop}
  {s : KState}

/-- Fewer requests may be considered. -/
theorem Rules.of_request {req req' : KState → TableIndex → Brand → Message → Keys → Prop}
    (R : Rules cfg A A' I J req E) (h : ∀ {s e b m k}, req' s e b m k → req s e b m k) :
    Rules cfg A A' I J req' E where
  pass := R.pass
  reply := R.reply
  through := R.through
  serve hs hI hreq := R.serve hs hI (h hreq)
  fault hs hI hreq := R.fault hs hI (h hreq)
  honest := R.honest
  honestReply := R.honestReply

/-- `I` holds until a method has run and `J` from then on, through a whole step. -/
structure Keeps (cfg : Config) (A : Authority) (I J : KState → Prop) (E : Panic → KState → Prop) :
    Prop where
  rules : Rules cfg A A I J (fun _ _ _ _ _ => True) E
  object : ∀ e, A.obj e
  blocks : A.blocks
  masked : ∀ {s} i, I s → I (s.masked i)
  entered : ∀ {s} stack regs, I s → I (({ s with pendSv := false } : KState).entered stack regs)
  copied : ∀ {s} c dst src, dst ≠ 0 → I s →
    J (s.setKeyAt (.keyReg c dst) (s.keyAt (.keyReg c src)))
  stored : ∀ {s} a v, s.mpu.unprivWrites a = true → I s →
    J { s with ram := Function.update s.ram a v }
  deferred : ∀ {s}, J s → J { s with switchPending := false, pendSv := true }
  elected : ∀ {s} c, s.WellFormed → s.Sits c .runnable → J s →
    J (({ s with switchPending := false } : KState).switchTo c)
  /-- The checks that an entry itself can run into. -/
  checks : ∀ p s', p.isRedirection ∨ p = .nullRedirectorEntry ∨ p = .noRunnable → E p s'

theorem Keeps.step (K : Keeps cfg A I J E) (hcfg : cfg.eagerRevocation = false) (hs : s.Settled)
    (hI : I s) (a : Action) : wp (step cfg a) (fun _ s' => J s') E s := by
  have hthrough : J s := K.rules.through hs.wellFormed hI
  refine step_spec (fun stack regs _ => ?_) (fun n _ hn _ => ?_) (fun stack regs _ _ => ?_)
    (fun x v _ hx => K.stored x v hx hI) hthrough
  · -- A system call, with the deferred switch at its end.
    refine Rules.svc (K.rules.of_request fun _ => trivial) hcfg hs.wellFormed hI K.blocks (K.object _) hs.running
      (fun h => absurd hs.null_register0 h) (fun s' hwf hJ => ?_) (fun src dst hdst => ?_) hthrough
    · exact doDeferredSwitch_spec hwf (fun _ => hJ) (fun c hc => K.elected c hwf hc hJ)
        fun _ => K.checks _ _ (.inr (.inr rfl))
    · exact K.copied _ dst src hdst hI
  · refine irqRedirector_spec hn (fun _ p hp => K.checks p s (.inl hp))
      (fun _ _ => K.checks _ _ (.inr (.inl rfl))) fun i hi _ => ?_
    refine wp_mono (Rules.trigger (K.rules.of_request fun _ => trivial) hcfg hs.wellFormed (K.masked i hI) (K.object i)
      (hs.irqTable _ i hi)) (fun _ s' h => ?_) fun _ _ h => h
    exact ⟨fun _ => h.2, fun _ => K.deferred h.2⟩
  · -- PendSV elects a Context, whatever the message passing before it left behind.
    refine pendSvEntry_spec hs.wellFormed (fun c hc => ?_) fun _ _ => K.checks _ _ (.inr (.inr rfl))
    have hsame : SameSeats s (({ s with pendSv := false } : KState).entered stack regs) :=
      (show SameSeats s ({ s with pendSv := false } : KState) from
        ⟨rfl, rfl, rfl, fun _ => .refl _, fun _ => .refl _⟩).trans (sameSeats_entered _ _ _)
    have hwf := hs.wellFormed.of_sameSeats hsame
    have helected := K.elected c hwf (hsame.sits hc) (K.rules.through hwf (K.entered stack regs hI))
    have hidle : ({ (({ s with pendSv := false } : KState).entered stack regs) with
        switchPending := false } : KState) = ({ s with pendSv := false } : KState).entered stack regs := by
      unfold KState.entered updateContext
      rw [← hs.noSwitch]
    rwa [hidle] at helected

/-- A second invariant may rely on the first. -/
theorem Keeps.and (K : Keeps cfg A I I E) {P : KState → Prop}
    (hact : ∀ {s s'}, s.WellFormed → I s → P s → Act A s s' → P s')
    (hserve : ∀ {s e b m k kind rs s'}, s.WellFormed → I s → P s → (∀ i, A.key s (k i)) →
      Effect cfg e b m k (s.looked kind e b) rs s' → I s' → P s')
    (hmasked : ∀ {s} i, P s → P (s.masked i))
    (hentered : ∀ {s} stack regs, P s → P (({ s with pendSv := false } : KState).entered stack regs))
    (hcopied : ∀ {s} c dst src, dst ≠ 0 → I s → P s →
      P (s.setKeyAt (.keyReg c dst) (s.keyAt (.keyReg c src))))
    (hstored : ∀ {s} a v, P s → P { s with ram := Function.update s.ram a v })
    (hdeferred : ∀ {s}, P s → P { s with switchPending := false, pendSv := true })
    (helected : ∀ {s} c, s.WellFormed → s.Sits c .runnable → I s → P s →
      P (({ s with switchPending := false } : KState).switchTo c)) :
    Keeps cfg A (fun s => I s ∧ P s) (fun s => I s ∧ P s) E := by
  have hconfined : Confined A I → Confined A fun s => I s ∧ P s := fun C =>
    { null := fun h => C.null h.1
      held := fun loc h => C.held loc h.1
      gate := fun hs h => C.gate hs h.1
      deref := fun hs h => C.deref hs h.1
      waiting := fun hs h => C.waiting hs h.1
      queued := fun hs h => C.queued hs h.1
      interrupt := fun hs h => C.interrupt hs h.1
      reply := fun hblocks hs h => C.reply hblocks hs h.1
      act := fun hs h hstep => ⟨C.act hs h.1 hstep, hact hs h.1 h.2 hstep⟩
      stable := fun hs h => C.stable hs h.1 }
  exact
    { rules :=
        { pass := hconfined K.rules.pass
          reply := hconfined K.rules.reply
          through := fun _ h => h
          serve := fun hs h hreq hkind hkeys heffect => by
            obtain ⟨hI, hreply⟩ := K.rules.serve hs h.1 hreq hkind hkeys heffect
            exact ⟨⟨hI, hserve hs h.1 h.2 hkeys heffect hI⟩, hreply⟩
          fault := fun hs h => K.rules.fault hs h.1
          honest := fun hs h => K.rules.honest hs h.1
          honestReply := fun hs h => K.rules.honestReply hs h.1 }
      object := K.object
      blocks := K.blocks
      masked := fun i h => ⟨K.masked i h.1, hmasked i h.2⟩
      entered := fun stack regs h => ⟨K.entered stack regs h.1, hentered stack regs h.2⟩
      copied := fun c dst src hdst h => ⟨K.copied c dst src hdst h.1, hcopied c dst src hdst h.1 h.2⟩
      stored := fun a v ha h => ⟨K.stored a v ha h.1, hstored a v h.2⟩
      deferred := fun h => ⟨K.deferred h.1, hdeferred h.2⟩
      elected := fun c hs hc h => ⟨K.elected c hs hc h.1, helected c hs hc h.1 h.2⟩
      checks := K.checks }

/-- What boot establishes and every step keeps holds of every reachable state. -/
theorem Keeps.reachable (K : Keeps cfg A I I E) (hcfg : cfg.eagerRevocation = false) {app : AppInfo}
    (hboot : ∀ {s}, Booted app s → I s) (h : Reachable cfg app s) : I s :=
  h.invariant (fun _ _ hboots => hboot hboots.booted) fun _ a _ hr hI hstep =>
    wp_ok (a := ()) (Q := fun _ s' => I s') (K.step hcfg (hr.settled hcfg) hI a) hstep

end

end BrittleKernel
