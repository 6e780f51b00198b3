import BrittleKernel.Requests
import BrittleKernel.Runs

/-!
# Steps and Methods

Passing messages, switching and storing leave the Object Table and the tables of interrupt
lines alone.  In a step of the kernel at most one method runs, so that an invariant of these
tables only has to be checked for the effects of methods.
-/

namespace BrittleKernel

open Hoare KState

/-- Whether Become recorded this event. -/
def Event.isDonation : Event → Bool
  | .donated .. => true
  | _ => false

/-- Whether a method that changes the Object Table recorded this event. -/
def Event.isTable : Event → Bool
  | .invalidateRequested .. | .generationAdvanced .. | .donated .. => true
  | _ => false

namespace KState

/-- The blocks that Become consumed, latest first. -/
def donations (s : KState) : List Event := s.history.filter Event.isDonation

@[simp] theorem donations_record (s : KState) (ev : Event) :
    (s.record ev).donations = if ev.isDonation then ev :: s.donations else s.donations :=
  List.filter_cons

/-- What happened to the Object Table, latest first. -/
def ledger (s : KState) : List Event := s.history.filter Event.isTable

theorem ledger_record (s : KState) (ev : Event) :
    (s.record ev).ledger = if ev.isTable then ev :: s.ledger else s.ledger :=
  List.filter_cons

theorem donations_ledger (s : KState) : s.ledger.filter Event.isDonation = s.donations := by
  rw [ledger, donations, List.filter_filter]
  refine List.filter_congr fun ev _ => ?_
  cases ev <;> rfl

end KState

/-- Nothing changes that only methods change; lines may have been disabled. -/
structure Untouched (s s' : KState) : Prop where
  count : s'.count = s.count
  kind : s'.kind = s.kind
  generation : s'.generation = s.generation
  memory : s'.memory = s.memory
  bodyAddr : s'.bodyAddr = s.bodyAddr
  irqTable : s'.irqTable = s.irqTable
  irqCount : s'.irqCount = s.irqCount
  identifier : ∀ i, (s'.interrupt i).identifier = (s.interrupt i).identifier
  irqEnabled : ∀ line, s'.irqEnabled line = true → s.irqEnabled line = true
  ledger : s'.ledger = s.ledger

namespace Untouched

variable {s s' s'' : KState}

theorem refl (s : KState) : Untouched s s :=
  ⟨rfl, rfl, rfl, rfl, rfl, rfl, rfl, fun _ => rfl, fun _ h => h, rfl⟩

theorem trans (h : Untouched s s') (h' : Untouched s' s'') : Untouched s s'' where
  count := h'.count.trans h.count
  kind := h'.kind.trans h.kind
  generation := h'.generation.trans h.generation
  memory := h'.memory.trans h.memory
  bodyAddr := h'.bodyAddr.trans h.bodyAddr
  irqTable := h'.irqTable.trans h.irqTable
  irqCount := h'.irqCount.trans h.irqCount
  identifier i := (h'.identifier i).trans (h.identifier i)
  irqEnabled line hline := h.irqEnabled line (h'.irqEnabled line hline)
  ledger := h'.ledger.trans h.ledger

theorem of_objects (h : s'.objects = s.objects)
    (hidentifier : ∀ i, (s'.interrupt i).identifier = (s.interrupt i).identifier)
    (hledger : s'.ledger = s.ledger) : Untouched s s' where
  count := count_of_objects h
  kind := kind_of_objects h
  generation := generation_of_objects h
  memory := memory_of_objects h
  bodyAddr := congrArg Objects.bodyAddr h
  irqTable := irqTable_of_objects h
  irqCount := irqCount_of_objects h
  identifier := hidentifier
  irqEnabled _ hline := irqEnabled_of_objects h ▸ hline
  ledger := hledger

theorem donations (h : Untouched s s') : s'.donations = s.donations := by
  rw [← donations_ledger, h.ledger, donations_ledger]

theorem setKeyAt (s : KState) (loc : KeyLoc) (k : Key) : Untouched s (s.setKeyAt loc k) := by
  have hledger : (s.setKeyAt loc k).ledger = s.ledger := by
    cases loc <;> rfl
  refine .of_objects (objects_setKeyAt _ _ _) (fun i => ?_) hledger
  cases loc with
  | keyReg | regionReg => rfl
  | target x => by_cases hi : i = x <;> simp [KState.setKeyAt, hi]

theorem dropped (s : KState) (loc : KeyLoc) : Untouched s (s.dropped loc) := by
  unfold KState.dropped
  split
  · exact .refl s
  · exact .setKeyAt _ _ _

theorem sending (s : KState) (ident : TableIndex) (loc : KeyLoc) :
    Untouched s (s.sending ident loc) :=
  (Untouched.dropped s loc).trans (.of_objects rfl (fun _ => rfl) rfl)

theorem masked (s : KState) (i : TableIndex) : Untouched s (s.masked i) where
  count := rfl
  kind := rfl
  generation := rfl
  memory := rfl
  bodyAddr := rfl
  irqTable := rfl
  irqCount := rfl
  identifier _ := rfl
  irqEnabled line hline := by
    simp only [KState.masked, Function.update_apply] at hline
    split at hline
    · cases hline
    · exact hline
  ledger := rfl

theorem loadMpu (s : KState) (c : TableIndex) : Untouched s (s.loadMpu c) :=
  ⟨rfl, rfl, rfl, rfl, rfl, rfl, rfl, fun _ => rfl, fun _ h => h, rfl⟩

theorem ready (s : KState) (stack : Word) (regs : UserRegisters) : Untouched s (s.ready stack regs) :=
  (Untouched.of_objects (objects_entered s stack regs) (fun _ => rfl) rfl).trans (.dropped _ _)

theorem svcSending (s : KState) (stack : Word) (regs : UserRegisters) :
    Untouched s (s.svcSending stack regs) :=
  (Untouched.ready s stack regs).trans (.sending _ _ _)

theorem looked (s : KState) (kind : Kind) (e : TableIndex) (b : Brand) :
    Untouched s (s.looked kind e b) := by
  rcases s.looked_cases kind e b with h | h
  · rw [h]
    exact .refl s
  · rw [h]
    exact .of_objects rfl (fun _ => rfl) rfl

end Untouched

section

variable {A : Authority} {s s' : KState}

theorem Act.ledger (h : Act A s s') : s'.ledger = s.ledger := by
  have hdeposit : ∀ dst ks, (s.deposit dst ks).ledger = s.ledger := by
    intro dst ks
    cases dst <;> rfl
  cases h with
  | drop loc => exact (Untouched.setKeyAt s loc _).ledger
  | note ev hev =>
    rw [ledger_record]
    cases ev <;> simp_all [Event.isPassing, Event.isTable]
  | deposit dst ks => exact hdeposit _ _
  | call c dst => exact hdeposit _ _
  | _ => rfl

theorem Act.untouched (h : Act A s s') : Untouched s s' := by
  refine .of_objects h.objects (fun i => ?_) h.ledger
  cases h with
  | drop loc => exact (Untouched.setKeyAt s loc _).identifier i
  | deposit dst ks => cases dst <;> rfl
  | call c dst => cases dst <;> rfl
  | takeIrq x g => by_cases hi : i = x <;> simp [requeue, hi]
  | blockIrq x g => by_cases hi : i = x <;> simp [requeue, saveIrqBrand, hi]
  | _ => rfl

theorem Acts.untouched (h : Acts A s s') : Untouched s s' := by
  induction h with
  | refl => exact .refl s
  | tail _ hact ih => exact ih.trans hact.untouched

end

/-! ## The method of a step -/

/-- Object `e` runs a method on message `m`; what happens before and after leaves the tables
alone. -/
inductive RunsMethod (cfg : Config) (s : KState) (e : TableIndex) (m : Message) : KState → Prop where
  | intro {brand : Brand} {k : Keys} {rs : ReplySender} {t t' s' : KState} :
      Untouched s t → t.WellFormed → Effect cfg e brand m k t rs t' → Untouched t' s' →
      RunsMethod cfg s e m s'

section

variable {cfg : Config} {s s' : KState} {a : Action}

theorem Delivered.runs {sender : Sender} {e : TableIndex} {ref : BrandRef}
    (h : Delivered cfg s sender e ref s') (hs : s.WellFormed) (hready : sender.Free s) :
    Untouched s s' ∨ RunsMethod cfg s e (s.outgoing sender).1 s' := by
  cases h with
  | passed h => exact .inl (Acts.untouched (h.acts hs hready))
  | @served kind s₁ s₂ _ rs hserved htaken heffect hrefused hreplied =>
    have hacts := htaken.acts hs hready
    have hl := (Acts.wellFormed hacts hs).of_sameSeats (sameSeats_looked s₁ kind e (s₁.readRef ref))
    exact .inr (.intro ((Acts.untouched hacts).trans (.looked _ _ _ _)) hl heffect
      (Acts.untouched (hreplied.acts (heffect.wellFormed hl))))

theorem Untouched.runs {t : KState} {e : TableIndex} {m : Message} (h : Untouched s t)
    (hruns : RunsMethod cfg t e m s') : RunsMethod cfg s e m s' := by
  cases hruns with
  | intro h₁ hwf heffect h₂ => exact .intro (h.trans h₁) hwf heffect h₂

theorem RunsMethod.untouched {t : KState} {e : TableIndex} {m : Message} (hruns : RunsMethod cfg s e m t)
    (h : Untouched t s') : RunsMethod cfg s e m s' := by
  cases hruns with
  | intro h₁ hwf heffect h₂ => exact .intro h₁ hwf heffect (h₂.trans h)

/-- In a step the tables stay as they are, or the object that the step's message goes to runs
one method on it. -/
theorem Stepped.runs (h : Stepped cfg s a s') (hs : s.Settled) :
    Untouched s s' ∨ ∃ e m, Requests s a e m ∧ RunsMethod cfg s e m s' := by
  have hwf := hs.wellFormed
  cases h with
  | @ipc stack regs s₁ _ hsys houtcome hswitch =>
    have hafter : Untouched s₁ s' := by
      cases hswitch with
      | stays => exact .refl _
      | elects c => exact ⟨rfl, rfl, rfl, rfl, rfl, rfl, rfl, fun _ => rfl, fun _ h => h, rfl⟩
    cases houtcome with
    | idle => exact .inl ((Untouched.ready s stack regs).trans hafter)
    | received _ _ h =>
      have hsame := (s.sameSeats_ready stack regs).trans (sameSeats_dropped _ (s.sourceReg regs))
      have hacts := h.acts (hwf.of_sameSeats hsame) (hsame.sits hs.running)
      exact .inl (((Untouched.ready s stack regs).trans (.dropped _ _)).trans
        ((Acts.untouched hacts).trans hafter))
    | sent hsend h =>
      have hbefore := Untouched.svcSending s stack regs
      rcases h.runs (hs.wellFormed_svcSending stack regs) (hs.free stack regs) with h | h
      · exact .inl (hbefore.trans (h.trans hafter))
      · rw [target_keyAt_ready, outgoing_svcSending] at h
        exact .inr ⟨_, _, .svc hsys hsend, (hbefore.runs h).untouched hafter⟩
  | copyKey => exact .inl (.setKeyAt _ _ _)
  | stillQueued => exact .inl (.masked _ _)
  | @irq n i s₁ _ _ hi hidle h =>
    have hsame := (sameSeats_masked s i).trans (sameSeats_sending _ i (.target i))
    have hbefore := (Untouched.masked s i).trans (.sending _ i (.target i))
    have hafter : Untouched s₁ s₁.deferToPendSv := by
      unfold deferToPendSv
      split
      · exact ⟨rfl, rfl, rfl, rfl, rfl, rfl, rfl, fun _ => rfl, fun _ h => h, rfl⟩
      · exact .refl _
    rcases h.runs (hwf.of_sameSeats hsame)
      ⟨trivial, (congrFun hsame.kind i).trans (hs.irqTable _ i hi), hsame.queued hidle⟩ with h | h
    · exact .inl (hbefore.trans (h.trans hafter))
    · rw [irqMessage_sending] at h
      exact .inr ⟨_, _, .irq hi, (hbefore.runs h).untouched hafter⟩
  | pendSv =>
    exact .inl ⟨rfl, rfl, rfl, rfl, rfl, rfl, rfl, fun _ => rfl, fun _ h => h, rfl⟩
  | store => exact .inl ⟨rfl, rfl, rfl, rfl, rfl, rfl, rfl, fun _ => rfl, fun _ h => h, rfl⟩
  | noCall | noIrq | noPendSv | noStore => exact .inl (.refl s)

end

/-! ## Invariants of the tables -/

/-- The states of the runs in which every step meets a condition. -/
inductive ReachableUnder (cfg : Config) (app : AppInfo) (ok : KState → Action → Prop) :
    KState → Prop where
  | boot {machine : Machine} {s : KState} : Boots app machine s → ReachableUnder cfg app ok s
  | step {s s' : KState} {a : Action} : ReachableUnder cfg app ok s → ok s a →
      BrittleKernel.step cfg a s = .ok () s' → ReachableUnder cfg app ok s'

section

variable {cfg : Config} {app : AppInfo} {ok : KState → Action → Prop} {s s' : KState} {I : KState → Prop}

theorem ReachableUnder.reachable (h : ReachableUnder cfg app ok s) : Reachable cfg app s := by
  induction h with
  | boot hboot => exact .boot hboot
  | step _ _ hstep ih => exact .step ih hstep

theorem Reachable.under (h : Reachable cfg app s) : ReachableUnder cfg app (fun _ _ => True) s := by
  induction h with
  | boot hboot => exact .boot hboot
  | step _ hstep ih => exact .step ih trivial hstep

theorem ReachableUnder.run {as : List Action} (h : ReachableUnder cfg app ok s)
    (hok : ∀ t, ∀ a ∈ as, ok t a) (hrun : runActions cfg as s = .ok () s') :
    ReachableUnder cfg app ok s' := by
  induction as generalizing s with
  | nil => exact runActions_nil.mp hrun ▸ h
  | cons a as ih =>
    obtain ⟨t, hstep, hrun⟩ := runActions_cons.mp hrun
    exact ih (.step h (hok s a (by simp)) hstep) (fun t b hb => hok t b (by simp [hb])) hrun

theorem reachableUnder_of_bootAndRun {machine : Machine} {as : List Action}
    (h : bootAndRun cfg app machine as {} = .ok () s) (hok : ∀ t, ∀ a ∈ as, ok t a) :
    ReachableUnder cfg app ok s := by
  simp only [bootAndRun, bind, EStateM.bind] at h
  cases hboot : startApp app machine {} with
  | ok u t =>
    rw [hboot] at h
    exact (ReachableUnder.boot hboot).run hok h
  | error p t => simp [hboot] at h

/-- An invariant of the tables holds in every run in which the methods keep it. -/
theorem ReachableUnder.tables (hcfg : cfg.eagerRevocation = false) (h : ReachableUnder cfg app ok s)
    (hboot : ∀ {s}, Booted app s → I s) (huntouched : ∀ {s s'}, Untouched s s' → I s → I s')
    (hmethod : ∀ {s s' t a e m k rs brand}, s.Settled → I s → ok s a → Requests s a e m →
      Untouched s t → t.WellFormed → Effect cfg e brand m k t rs s' → I s') : I s := by
  induction h with
  | boot h => exact hboot h.booted
  | step hrun hok hstep ih =>
    have hs := hrun.reachable.settled hcfg
    rcases (hrun.reachable.stepped hcfg hstep).runs hs with h | ⟨e, m, hrequest, ⟨h₁, hwf, heffect, h₂⟩⟩
    · exact huntouched h ih
    · exact huntouched h₂ (hmethod hs ih hok hrequest h₁ hwf heffect)

end

end BrittleKernel
