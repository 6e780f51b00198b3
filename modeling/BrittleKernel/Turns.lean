import BrittleKernel.Outcomes
import BrittleKernel.Lib.Fifo

/-!
# Turns

The order of the kernel's lists.  Items join a list at its end when their owner starts to
wait, or when Set Priority reinserts them, so that the first of a sublist has been on it for
longest.
-/

namespace BrittleKernel

open Hoare KState

/-! ## What changes the lists -/

/-- The smallest changes of the lists, with the items that are taken off a list and put back. -/
inductive Moves (cfg : Config) (s : KState) : KState → (ItemRef → Prop) → Prop where
  | act {s' : KState} : Act (.any True) s s' → Moves cfg s s' fun _ => False
  | method {e : TableIndex} {brand : Brand} {m : Message} {k : Keys} {rs : ReplySender} {s' : KState} :
      Effect cfg e brand m k s rs s' →
      (s.kind e = .context → ContextMethod.ofSelector m.desc.getSelector ≠ some .setPriority) →
      Moves cfg s s' fun _ => False
  /-- Set Priority reinserts both items of a Context where it waits. -/
  | setPriority (e : TableIndex) (seat : Seat) (n : Priority) : s.kind e = .context → s.Sits e seat →
      n < nPriorities →
      Moves cfg s ((s.updateContext e fun b => { b with priority := n }).reseat e seat)
        fun r => r = .ctxItem e ∨ r = .senderItem e
  /-- Everything that leaves the lists alone. -/
  | still {s' : KState} : s'.queues = s.queues → s'.WellFormed → Moves cfg s s' fun _ => False

/-- A run of changes, with the items that join each sublist in its course. -/
inductive Turns (cfg : Config) (s : KState) : (ListId → Priority → ItemRef → Prop) → KState → Prop where
  | start : Turns cfg s (fun _ _ _ => False) s
  | move {joined : ListId → Priority → ItemRef → Prop} {t t' : KState} {again : ItemRef → Prop} :
      Turns cfg s joined t → Moves cfg t t' again →
      Turns cfg s (fun l p r => joined l p r ∨ Fifo.Joins again (t.queues l p) (t'.queues l p) r) t'

section

variable {cfg : Config} {s s' : KState} {c : TableIndex} {again : ItemRef → Prop}

/-- A Context that takes another seat joins the end of its list. -/
theorem advances_reseat (hs : s.WellFormed) {seat seat' : Seat} (hc : s.Sits c seat)
    (hctx : ∀ l, seat'.ctxList = some l → seat.ctxList ≠ some l)
    (hsender : ∀ l, seat'.senderList = some l → seat.senderList ≠ some l) (l : ListId) (p : Priority) :
    Fifo.Advances (fun _ => False) (s.queues l p) ((s.reseat c seat').queues l p) := by
  simp only [reseat]
  rw [List.append_assoc]
  refine .join (List.erase_sublist.trans List.erase_sublist) fun r hr => ?_
  rw [hs.threaded.mem_iff]
  rcases List.mem_append.mp hr with hr | hr
  · split at hr
    next h =>
      obtain rfl := List.mem_singleton.mp hr
      rw [item, hc.body.ctxItem]
      intro hring
      refine hctx l h.1 ?_
      cases hlist : seat.ctxList with
      | none => simp [hlist] at hring
      | some l' => simp_all
    next => simp at hr
  · split at hr
    next h =>
      obtain rfl := List.mem_singleton.mp hr
      rw [item, hc.body.senderItem]
      intro hring
      refine hsender l h.1 ?_
      cases hlist : seat.senderList with
      | none => simp [hlist] at hring
      | some l' => simp_all
    next => simp at hr

/-- Set Priority puts a Context behind all others of its new priority. -/
theorem advances_setPriority (hs : s.WellFormed) (seat : Seat) (n : Priority) (l : ListId)
    (p : Priority) :
    Fifo.Advances (fun r => r = .ctxItem c ∨ r = .senderItem c) (s.queues l p)
      (((s.updateContext c fun b => { b with priority := n }).reseat c seat).queues l p) := by
  refine ⟨_, _, List.append_assoc _ _ _, List.erase_sublist.trans List.erase_sublist,
    fun r hr => ?_, fun r hr => .inr ?_⟩
  · have hnodup := hs.threaded.nodup (l, p)
    obtain ⟨hsender, hr⟩ := (hnodup.erase _).mem_erase_iff.mp hr
    obtain ⟨hctx, -⟩ := hnodup.mem_erase_iff.mp hr
    exact fun h => h.elim hctx hsender
  · rcases List.mem_append.mp hr with hr | hr
    · split at hr
      · exact .inl (List.mem_singleton.mp hr)
      · simp at hr
    · split at hr
      · exact .inr (List.mem_singleton.mp hr)
      · simp at hr

theorem advances_requeue (hs : s.WellFormed) {i : TableIndex} {q : Option TableIndex}
    (hi : s.Queued i q) (q' : Option TableIndex) (hne : ∀ g, q' = some g → q = none) (l : ListId) (p : Priority) :
    Fifo.Advances (fun _ => False) (s.queues l p) ((s.requeue i (q'.map .senders)).queues l p) := by
  simp only [requeue]
  refine .join List.erase_sublist fun r hr => ?_
  split at hr
  next h =>
    obtain rfl := List.mem_singleton.mp hr
    cases q' with
    | none => simp at h
    | some g =>
      obtain rfl := hne g rfl
      rw [hs.threaded.mem_iff, item, hi.item]
      simp
  next => simp at hr

theorem Act.advances (h : Act (.any True) s s') (hs : s.WellFormed) (l : ListId) (p : Priority) :
    Fifo.Advances (fun _ => False) (s.queues l p) (s'.queues l p) := by
  cases h with
  | save | note => exact .refl _
  | drop loc => cases loc <;> exact .refl _
  | deposit dst => cases dst <;> exact .refl _
  | call c dst _ _ _ _ hc =>
    have hsame := s.sameSeats_deposit dst (s.sentKeys c)
    have hmove : Fifo.Advances (fun _ => False) ((s.deposit dst (s.sentKeys c)).queues l p)
        (((s.deposit dst (s.sentKeys c)).reseat c .awaiting).queues l p) :=
      advances_reseat (hs.of_sameSeats hsame) (hsame.sits hc) (by simp [Seat.ctxList])
        (by simp [Seat.senderList]) l p
    rw [hsame.queues] at hmove
    exact hmove
  | rouse c g seat _ _ hc hg =>
    refine advances_reseat hs hc ?_ (by simp [Seat.senderList]) l p
    cases seat <;> simp_all [Seat.gate, Seat.ctxList]
  | answer c b _ hc =>
    have hsame := (s.sameSeats_advanceReply c).trans (sameSeats_record _ (.answered c b))
    exact advances_reseat (hs.of_sameSeats hsame) (hsame.sits hc) (by simp [Seat.ctxList])
      (by simp [Seat.senderList]) l p
  | takeIrq i g _ _ hi => exact advances_requeue hs hi none (by simp) l p
  | blockInReceive c g _ _ _ hc =>
    exact advances_reseat hs hc (by simp [Seat.ctxList]) (by simp [Seat.senderList]) l p
  | blockInReply c _ _ hc =>
    exact advances_reseat hs hc (by simp [Seat.ctxList]) (by simp [Seat.senderList]) l p
  | blockInSend c g brand _ _ _ hc =>
    have hsame : SameSeats s (s.saveBrand c brand) :=
      s.sameSeats_updateContext c ⟨rfl, rfl, rfl, rfl⟩
    exact advances_reseat (hs.of_sameSeats hsame) (hsame.sits hc) (by simp [Seat.ctxList])
      (by simp [Seat.senderList]) l p
  | blockIrq i g brand _ _ hi =>
    have hsame : SameSeats s (s.saveIrqBrand i brand) := s.sameSeats_updateInterrupt i ⟨rfl, rfl⟩
    exact advances_requeue (hs.of_sameSeats hsame) (hsame.queued hi) (some g) (by simp) l p

variable {e : TableIndex} {brand : Brand} {m : Message} {k : Keys} {rs : ReplySender}

/-- Nobody waits at an entry that holds no Gate. -/
theorem KState.WellFormed.queue_of_kind (hs : s.WellFormed) (he : s.kind e ≠ .gate) (p : Priority) :
    s.queues (.senders e) p = [] ∧ s.queues (.receivers e) p = [] := by
  constructor
  · refine List.eq_nil_iff_forall_not_mem.mpr fun r hr => he ?_
    rcases hs.mem_senders hr with ⟨c, -, hc⟩ | ⟨i, -, hi⟩
    · exact hc.gate e rfl
    · exact hi.gate e rfl
  · refine List.eq_nil_iff_forall_not_mem.mpr fun r hr => he ?_
    obtain ⟨c, -, hc⟩ := hs.mem_receivers hr
    exact hc.gate e rfl

/-- A method leaves the lists alone, or it is Make Runnable or Invalidate, which take items
off, or Set Priority. -/
theorem Effect.advances (h : Effect cfg e brand m k s rs s') (hs : s.WellFormed) :
    s'.queues = s.queues ∨
      (∀ l p, Fifo.Advances (fun _ => False) (s.queues l p) (s'.queues l p)) ∧
        (s.kind e = .context → ContextMethod.ofSelector m.desc.getSelector ≠ some .setPriority) ∨
      ∃ seat, s.kind e = .context ∧
        ContextMethod.ofSelector m.desc.getSelector = some .setPriority ∧ s.Sits e seat ∧
        m.d0.toNat < nPriorities ∧
        s' = (s.updateContext e fun b => { b with priority := m.d0.toNat }).reseat e seat := by
  cases h with
  | callOff seat g hm hseat hg =>
    refine .inr (.inl ⟨fun l p => advances_reseat hs hseat ?_ (by simp [Seat.senderList]) l p,
      by simp [hm]⟩)
    cases seat <;> simp_all [Seat.gate, Seat.ctxList]
  | callOffReply hm hseat =>
    have hsame := s.sameSeats_advanceReply e
    exact .inr (.inl ⟨fun l p => advances_reseat (hs.of_sameSeats hsame) (hsame.sits hseat)
      (by simp [Seat.ctxList]) (by simp [Seat.senderList]) l p, by simp [hm]⟩)
  | start hm _ hseat =>
    exact .inr (.inl ⟨fun l p => advances_reseat hs hseat (by simp [Seat.ctxList])
      (by simp [Seat.senderList]) l p, by simp [hm]⟩)
  | setPriority seat he hm hseat hn => exact .inr (.inr ⟨seat, he, hm, hseat, hn, rfl⟩)
  | writeKey r => exact .inl (s.sameSeats_setKeyAt (.keyReg e r) (k 1)).queues
  | writeRegion r =>
    left
    split
    · exact (s.sameSeats_setKeyAt (.regionReg e r) (k 1)).queues
    · exact (s.sameSeats_setKeyAt (.regionReg e r) (k 1)).queues
  | split slot => exact .inl (by simp [splitMemory])
  | makeChild slot => exact .inl (by simp [makeChildMemory])
  | become t hok =>
    left
    cases t with
    | context | interrupt => rfl
    | gate =>
      -- The new Gate's lists were empty before.
      have hempty := hs.queue_of_kind (e := e) (by simp [hok.memory])
      funext l p
      simp only [becomeObject, buildObject, queues_loadMpu, queues_record, queues_bump,
        Function.update_apply]
      split
      next hl => rw [hl, (hempty p).2]
      next =>
        split
        next hl => rw [hl, (hempty p).1]
        next => rfl
  | invalidate he =>
    simp only [invalidated, queues_bump, invalidationHook]
    split
    · exact .inl rfl
    · obtain ⟨seat, hseat⟩ := hs.context m.d0.toNat
      have hmove : ∀ l p, Fifo.Advances (fun _ => False) (s.queues l p)
          ((s.reseat m.d0.toNat .stopped).queues l p) :=
        advances_reseat hs hseat (by simp [Seat.ctxList]) (by simp [Seat.senderList])
      refine .inr (.inl ⟨fun l p => ?_, by simp [he]⟩)
      split
      · exact hmove l p
      · exact hmove l p
    · obtain ⟨q, hq⟩ := hs.interrupt m.d0.toNat
      exact .inr (.inl ⟨advances_requeue hs hq none (by simp), by simp [he]⟩)
    · exact .inl rfl
  | _ => exact .inl rfl

theorem Moves.wellFormed (h : Moves cfg s s' again) (hs : s.WellFormed) : s'.WellFormed := by
  cases h with
  | act h => exact h.wellFormed hs
  | method h => exact h.wellFormed hs
  | setPriority e seat n hkind hseat hn =>
    exact hs.reseat_update e _ rfl rfl hn (fun _ => hkind) hseat.gate
  | still _ h => exact h

theorem Moves.advances (h : Moves cfg s s' again) (hs : s.WellFormed) (l : ListId) (p : Priority) :
    Fifo.Advances again (s.queues l p) (s'.queues l p) := by
  cases h with
  | act h => exact h.advances hs l p
  | method h hm =>
    rcases h.advances hs with hsame | ⟨hmove, -⟩ | ⟨seat, hkind, hpriority, -⟩
    · exact hsame ▸ .refl _
    · exact hmove l p
    · exact absurd hpriority (hm hkind)
  | setPriority e seat n => exact advances_setPriority hs seat n l p
  | still hsame => exact hsame ▸ .refl _

theorem Effect.moves (h : Effect cfg e brand m k s rs s') (hs : s.WellFormed) :
    ∃ again, Moves cfg s s' again := by
  rcases h.advances hs with hsame | ⟨-, hm⟩ | ⟨seat, hkind, -, hseat, hn, rfl⟩
  · exact ⟨_, .still hsame (h.wellFormed hs)⟩
  · exact ⟨_, .method h hm⟩
  · exact ⟨_, .setPriority e seat _ hkind hseat hn⟩

end

/-! ## Runs of changes -/

namespace Turns

variable {cfg : Config} {s s' s'' : KState} {joined joined' : ListId → Priority → ItemRef → Prop}

theorem wellFormed (h : Turns cfg s joined s') (hs : s.WellFormed) : s'.WellFormed := by
  induction h with
  | start => exact hs
  | move _ hmove ih => exact hmove.wellFormed ih

/-- Each sublist goes through a run of a first-in first-out list. -/
theorem run (h : Turns cfg s joined s') (hs : s.WellFormed) (l : ListId) (p : Priority) :
    Fifo.Run (s.queues l p) (joined l p) (s'.queues l p) := by
  induction h with
  | start => exact .start _
  | move hrun hmove ih => exact ih.step (hmove.advances (hrun.wellFormed hs) l p)

/-- Whoever stands behind an item that joined in the course of the run has joined, too. -/
theorem order (h : Turns cfg s joined s') (hs : s.WellFormed) {l : ListId} {p : Priority}
    {r r' : ItemRef} (hr : [r, r'].Sublist (s'.queues l p)) (hjoined : joined l p r) : joined l p r' :=
  (h.run hs l p).order hr hjoined

theorem still (h : Turns cfg s joined s') (hqueues : s''.queues = s'.queues) (hs : s''.WellFormed) :
    ∃ joined, Turns cfg s joined s'' :=
  ⟨_, h.move (.still hqueues hs)⟩

theorem acts (h : Turns cfg s joined s') (hacts : Acts (.any True) s' s'') :
    ∃ joined, Turns cfg s joined s'' := by
  induction hacts with
  | refl => exact ⟨_, h⟩
  | tail _ hact ih =>
    obtain ⟨_, hrun⟩ := ih
    exact ⟨_, hrun.move (.act hact)⟩

end Turns

section

variable {cfg : Config} {s s' : KState} {joined : ListId → Priority → ItemRef → Prop}

theorem Turns.delivered {t : KState} {sender : Sender} {e : TableIndex} {ref : BrandRef}
    (hturns : Turns cfg s joined t) (h : Delivered cfg t sender e ref s') (ht : t.WellFormed)
    (hready : sender.Free t) : ∃ joined, Turns cfg s joined s' := by
  cases h with
  | passed h => exact hturns.acts (h.acts ht hready)
  | @served kind t₁ t₂ _ rs _ h₁ heffect _ hreplied =>
    obtain ⟨_, hrun₁⟩ := hturns.acts (h₁.acts ht hready)
    have ht₁ := Acts.wellFormed (h₁.acts ht hready) ht
    have hsame := sameSeats_looked t₁ kind e (t₁.readRef ref)
    obtain ⟨_, hrun₂⟩ := hrun₁.still hsame.queues (ht₁.of_sameSeats hsame)
    obtain ⟨again, hmoves⟩ := heffect.moves (ht₁.of_sameSeats hsame)
    exact (hrun₂.move hmoves).acts
      (hreplied.acts (heffect.wellFormed (ht₁.of_sameSeats hsame)))

theorem Turns.ofSameSeats (hs : s.WellFormed) (h : SameSeats s s') : ∃ joined, Turns cfg s joined s' :=
  ⟨_, Turns.start.move (.still h.queues (hs.of_sameSeats h))⟩

theorem SvcOutcome.turns {stack : Word} {regs : UserRegisters} (h : SvcOutcome cfg s stack regs s')
    (hs : s.Settled) : ∃ joined, Turns cfg s joined s' := by
  have hsame := s.sameSeats_ready stack regs
  cases h with
  | idle => exact Turns.ofSameSeats hs.wellFormed hsame
  | received _ _ h =>
    have hsame₂ := hsame.trans (sameSeats_dropped _ (s.sourceReg regs))
    obtain ⟨_, hrun⟩ := Turns.ofSameSeats hs.wellFormed hsame₂
    exact hrun.acts (h.acts (hs.wellFormed.of_sameSeats hsame₂) (hsame₂.sits hs.running))
  | sent _ h =>
    obtain ⟨_, hrun⟩ := Turns.ofSameSeats hs.wellFormed
      (hsame.trans (sameSeats_sending _ s.current (s.targetReg regs)))
    exact hrun.delivered h (hs.wellFormed_svcSending stack regs) (hs.free stack regs)

theorem KState.sameSeats_switchTo (s : KState) (c : TableIndex) : SameSeats s (s.switchTo c) :=
  (show SameSeats s ({ s.record (.switched c) with current := c } : KState) from
    ⟨rfl, rfl, rfl, fun _ => .refl _, fun _ => .refl _⟩).trans (sameSeats_loadMpu _ _)

theorem Switches.sameSeats (h : Switches s s') : SameSeats s s' := by
  cases h with
  | stays => exact ⟨rfl, rfl, rfl, fun _ => .refl _, fun _ => .refl _⟩
  | elects c =>
    exact (show SameSeats s ({ s with switchPending := false } : KState) from
      ⟨rfl, rfl, rfl, fun _ => .refl _, fun _ => .refl _⟩).trans (sameSeats_switchTo _ c)

theorem KState.sameSeats_deferToPendSv (s : KState) : SameSeats s s.deferToPendSv := by
  unfold deferToPendSv
  split
  · exact ⟨rfl, rfl, rfl, fun _ => .refl _, fun _ => .refl _⟩
  · exact ⟨rfl, rfl, rfl, fun _ => .refl _, fun _ => .refl _⟩

/-- Every step of the kernel is a run of changes. -/
theorem Stepped.turns {a : Action} (h : Stepped cfg s a s') (hs : s.Settled) :
    ∃ joined, Turns cfg s joined s' := by
  have hwf := hs.wellFormed
  cases h with
  | ipc _ houtcome hswitch =>
    obtain ⟨_, hrun⟩ := houtcome.turns hs
    exact hrun.still hswitch.sameSeats.queues ((hrun.wellFormed hwf).of_sameSeats hswitch.sameSeats)
  | copyKey => exact Turns.ofSameSeats hwf (sameSeats_setKeyAt _ _ _)
  | stillQueued => exact Turns.ofSameSeats hwf (sameSeats_masked _ _)
  | @irq n i s₁ _ _ hi hidle hdelivered =>
    have hsame := (sameSeats_masked s i).trans (sameSeats_sending _ i (.target i))
    obtain ⟨_, hrun₁⟩ := Turns.ofSameSeats hwf hsame
    obtain ⟨_, hrun₂⟩ := hrun₁.delivered hdelivered (hwf.of_sameSeats hsame)
      ⟨trivial, (congrFun hsame.kind i).trans (hs.irqTable _ i hi), hsame.queued hidle⟩
    exact hrun₂.still (sameSeats_deferToPendSv s₁).queues
      ((hrun₂.wellFormed hwf).of_sameSeats (sameSeats_deferToPendSv s₁))
  | pendSv =>
    exact Turns.ofSameSeats hwf (((show SameSeats s ({ s with pendSv := false } : KState) from
      ⟨rfl, rfl, rfl, fun _ => .refl _, fun _ => .refl _⟩).trans (sameSeats_entered _ _ _)).trans
        (sameSeats_switchTo _ _))
  | store => exact Turns.ofSameSeats hwf ⟨rfl, rfl, rfl, fun _ => .refl _, fun _ => .refl _⟩
  | noCall | noIrq | noPendSv | noStore => exact ⟨_, .start⟩

end

end BrittleKernel
