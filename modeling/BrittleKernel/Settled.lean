import BrittleKernel.Booting

/-!
# The State between Kernel Entries

Every state that a run reaches between kernel entries is settled: lists, seats and bodies
agree, the current Context is runnable, no switch is outstanding.
-/

namespace BrittleKernel

open Hoare KState

/-! ## What stays true throughout an entry -/

/-- The redirection table names Interrupts, and key register 0 is null. -/
structure KState.Steady (s : KState) : Prop where
  irqTable : ∀ n i, s.irqTable n = some i → s.kind i = .interrupt
  register0 : ∀ c, (s.keyAt (.keyReg c 0)).Blank

/-- Unless a switch is pending, the current Context can go on. -/
def KState.Running (s : KState) : Prop := s.switchPending = false → s.Sits s.current .runnable

/-- The state between kernel entries. -/
structure KState.Settled (s : KState) : Prop extends s.Steady where
  wellFormed : s.WellFormed
  noSwitch : s.switchPending = false
  running : s.Sits s.current .runnable

/-- A blank key designates the Null object. -/
theorem Key.Blank.target {s : KState} {k : Key} (h : k.Blank) : s.target k = 0 := by
  rcases target_cases s k with ⟨htarget, -, -⟩ | ⟨hfilled, -, -⟩
  · exact htarget
  · have hptr : k.ptr = some (s.target k) := by
      conv_lhs => rw [hfilled]
      rfl
    rcases h.2 with hnone | hzero
    · simp [hnone] at hptr
    · exact (Option.some.inj (hzero.symm.trans hptr)).symm

section

variable {A : Authority} {s s' : KState}

theorem Act.steady (h : Act A s s') (hs : s.Steady) : s'.Steady where
  irqTable n i hi := by
    rw [kind_of_objects h.objects]
    exact hs.irqTable n i (irqTable_of_objects h.objects ▸ hi)
  register0 c := by
    rcases h.keyAt_cases (.keyReg c 0) with hkeep | ⟨-, -, -, hnull⟩ | ⟨x, r, hloc, hr, -⟩
    · exact hkeep ▸ hs.register0 c
    · exact hnull ▸ s.blank_nullKey
    · injection hloc with _ h0
      exact absurd h0.symm hr

/-- An act that leaves no switch pending moves nobody. -/
theorem Act.sameSeats (h : Act A s s') (hpending : s'.switchPending = false) :
    s.switchPending = false ∧ ∀ c seat, s.Sits c seat → s'.Sits c seat := by
  cases h with
  | save c f => exact ⟨hpending, fun _ _ => (s.sameSeats_updateContext c ⟨rfl, rfl, rfl, rfl⟩).sits⟩
  | drop loc =>
    refine ⟨?_, fun _ _ => (s.sameSeats_setKeyAt loc _).sits⟩
    cases loc <;> exact hpending
  | note ev => exact ⟨hpending, fun _ _ => (s.sameSeats_record ev).sits⟩
  | deposit dst ks =>
    refine ⟨?_, fun _ _ => (s.sameSeats_deposit dst ks).sits⟩
    cases dst <;> exact hpending
  | takeIrq i g => exact ⟨hpending, fun _ _ h => ⟨h.body, h.kind, h.gate⟩⟩
  | blockIrq i g => exact ⟨hpending, fun _ _ h => ⟨h.body, h.kind, h.gate⟩⟩
  | _ => simp [pend] at hpending

theorem Act.running (h : Act A s s') (hs : s.Running) : s'.Running := by
  intro hpending
  obtain ⟨hpending', hsits⟩ := h.sameSeats hpending
  rw [current_of_objects h.objects]
  exact hsits _ _ (hs hpending')

/-- Where no Context may block, a runnable Context stays runnable. -/
theorem Act.sits_runnable (h : Act A s s') (hblocks : ¬A.blocks) {c : TableIndex}
    (hc : s.Sits c .runnable) : s'.Sits c .runnable := by
  have hmove : ∀ {t : KState} {x : TableIndex} {seat seat' : Seat}, SameSeats s t →
      s.Sits x seat → seat ≠ .runnable → ((t.reseat x seat').pend).Sits c .runnable := by
    intro t x seat seat' hsame hx hne
    refine (sameSeats_pend _).sits (sits_reseat_of_ne ?_ _ (hsame.sits hc))
    rintro rfl
    exact hne (hx.unique hc)
  cases h with
  | rouse x g seat _ _ hx hg =>
    exact hmove ⟨rfl, rfl, rfl, fun _ => .refl _, fun _ => .refl _⟩ hx
      (by rintro rfl; simp [Seat.gate] at hg)
  | answer x b _ hx =>
    exact hmove ((s.sameSeats_advanceReply x).trans (sameSeats_record _ _)) hx (by simp)
  | save x f => exact (s.sameSeats_updateContext x ⟨rfl, rfl, rfl, rfl⟩).sits hc
  | drop loc => exact (s.sameSeats_setKeyAt loc _).sits hc
  | note ev => exact (s.sameSeats_record ev).sits hc
  | deposit dst ks => exact (s.sameSeats_deposit dst ks).sits hc
  | takeIrq | blockIrq => exact ⟨hc.body, hc.kind, hc.gate⟩
  | call _ _ h | blockInReceive _ _ h | blockInReply _ h | blockInSend _ _ _ h => exact absurd h hblocks

end

section

variable {cfg : Config} {e : TableIndex} {brand : Brand} {m : Message} {k : Keys} {s s' : KState}
  {rs : ReplySender}

/-- Only Memory and Slots turn into something else. -/
theorem Effect.kind_cases (h : Effect cfg e brand m k s rs s') (x : TableIndex) :
    s'.kind x = s.kind x ∨ s.kind x = .memory ∨ s.kind x = .slot := by
  cases h with
  | split slot hok =>
    by_cases hx : x = slot
    · subst hx; exact .inr (.inr hok.slot)
    · by_cases hx' : x = e
      · subst hx'; exact .inr (.inl hok.memory)
      · exact .inl (by simp [splitMemory, hx, hx'])
  | makeChild slot hok =>
    by_cases hx : x = slot
    · subst hx; exact .inr (.inr hok.slot)
    · exact .inl (by simp [makeChildMemory, hx])
  | become t hok =>
    by_cases hx : x = e
    · subst hx; exact .inr (.inl hok.memory)
    · left
      cases t <;> simp [becomeObject, buildObject, hx]
  | invalidate =>
    left
    simp only [invalidated, kind_bump, invalidationHook]
    split <;> (try split) <;> rfl
  | writeKey | setTarget => exact .inl (congrFun (kind_of_objects (objects_setKeyAt _ _ _)) x)
  | writeRegion r =>
    left
    split
    · exact congrFun (kind_of_objects (objects_setKeyAt _ (.regionReg e r) (k 1))) x
    · exact congrFun (kind_of_objects (objects_setKeyAt _ _ _)) x
  | _ => exact .inl rfl

theorem Effect.irqTable_cases (h : Effect cfg e brand m k s rs s') (n : Nat) :
    s'.irqTable n = s.irqTable n ∨ s'.irqTable n = none ∨
      s'.irqTable n = some e ∧ s'.kind e = .interrupt := by
  cases h with
  | become t =>
    cases t with
    | context | gate => exact .inl rfl
    | interrupt =>
      have htable : (s.becomeObject e .interrupt m.d1).irqTable =
          Function.update s.irqTable (m.d1 + 1#32).toNat (some e) := rfl
      rw [htable]
      by_cases hn : n = (m.d1 + 1#32).toNat
      · rw [hn, Function.update_self]
        exact .inr (.inr ⟨rfl, Function.update_self _ _ _⟩)
      · exact .inl (Function.update_of_ne hn _ _)
  | invalidate =>
    simp only [invalidated, irqTable_bump, invalidationHook]
    split
    · exact .inl rfl
    · left
      split <;> rfl
    · simp only [Function.update_apply]
      split
      · exact .inr (.inl rfl)
      · exact .inl rfl
    · exact .inl rfl
  | writeKey | setTarget => exact .inl (congrFun (irqTable_of_objects (objects_setKeyAt _ _ _)) n)
  | writeRegion r =>
    left
    split
    · exact congrFun (irqTable_of_objects (objects_setKeyAt _ (.regionReg e r) (k 1))) n
    · exact congrFun (irqTable_of_objects (objects_setKeyAt _ _ _)) n
  | split | makeChild => exact .inl (by simp [splitMemory, makeChildMemory])
  | _ => exact .inl rfl

theorem Effect.steady (h : Effect cfg e brand m k s rs s') (hs : s.Steady) : s'.Steady where
  irqTable n i hi := by
    have hkind : s.kind i = .interrupt → s'.kind i = .interrupt := by
      intro hk
      rcases h.kind_cases i with hsame | hm | hm
      · rw [hsame, hk]
      · simp [hk] at hm
      · simp [hk] at hm
    rcases h.irqTable_cases n with hsame | hnone | ⟨hsome, hk⟩
    · exact hkind (hs.irqTable n i (hsame ▸ hi))
    · simp [hnone] at hi
    · rw [hsome] at hi
      exact Option.some.inj hi ▸ hk
  register0 c := by
    rcases h.keyAt_cases (.keyReg c 0) with hkeep | ⟨hblank, -⟩ | ⟨-, -, hne, -⟩
    · exact hkeep ▸ hs.register0 c
    · exact hblank
    · exact absurd rfl (hne c)

theorem Effect.current_eq (h : Effect cfg e brand m k s rs s') : s'.current = s.current := by
  cases h with
  | writeKey | setTarget => exact current_of_objects (objects_setKeyAt _ _ _)
  | writeRegion r =>
    split
    · show (s.setKeyAt (.regionReg e r) (k 1)).current = s.current
      exact current_of_objects (objects_setKeyAt _ _ _)
    · exact current_of_objects (objects_setKeyAt _ _ _)
  | split | makeChild => simp [splitMemory, makeChildMemory]
  | become t => cases t <;> rfl
  | invalidate =>
    simp only [invalidated, current_bump, invalidationHook]
    split <;> (try split) <;> rfl
  | _ => rfl

/-- No method takes back a pending switch. -/
theorem Effect.switchPending (h : Effect cfg e brand m k s rs s')
    (hpending : s'.switchPending = false) : s.switchPending = false := by
  cases h with
  | callOff | callOffReply | start => cases (show true = false from hpending)
  | writeRegion r => split at hpending <;> exact hpending
  | split | makeChild => simpa [splitMemory, makeChildMemory] using hpending
  | become t => cases t <;> exact hpending
  | invalidate =>
    simp only [invalidated, switchPending_bump, invalidationHook] at hpending
    split at hpending
    · exact hpending
    · split at hpending
      · cases (show true = false from hpending)
      · exact hpending
    · exact hpending
    · exact hpending
  | _ => exact hpending

/-- What a method does to a Context's seat: it stays, or the object itself is made runnable,
or Invalidate stops the Context. -/
theorem Effect.sits_cases (h : Effect cfg e brand m k s rs s') {c : TableIndex} {seat : Seat}
    (hc : s.Sits c seat) :
    s'.Sits c seat ∨
      c = e ∧ ContextMethod.ofSelector m.desc.getSelector = some .makeRunnable ∧
        seat ≠ .runnable ∧ s'.Sits c .runnable ∧ s'.switchPending = true ∨
      c = m.d0.toNat ∧ ObjectTableMethod.ofSelector m.desc.getSelector = some .invalidate ∧
        s.kind e = .objectTable ∧ s'.Sits c .stopped ∧
        (c = s.current → s'.switchPending = true) := by
  have hkind : ∀ x, (s.kind x = .context ∨ s.kind x = .gate) → s'.kind x = s.kind x := by
    intro x hx
    rcases h.kind_cases x with hsame | hm | hm
    · exact hsame
    · simp [hm] at hx
    · simp [hm] at hx
  have hstay : Seated (s'.context c) seat → s'.Sits c seat := fun hbody =>
    ⟨hbody, fun hne => (hkind c (.inl (hc.kind hne))).trans (hc.kind hne), fun g hg =>
      (hkind g (.inr (hc.gate g hg))).trans (hc.gate g hg)⟩
  have hroused : ∀ {t : KState}, SameSeats s t → c = e → seat ≠ .stopped →
      ((t.reseat e .runnable).pend.calledOff e).Sits c .runnable := by
    rintro t hsame rfl hne
    exact (sameSeats_calledOff _ _).sits ((sameSeats_pend _).sits (sits_reseat _ _ _ (fun _ =>
      hsame.kind ▸ hc.kind hne) (by simp [Seat.gate])))
  cases h with
  | callOff seat' g hm hseat hg =>
    by_cases hce : c = e
    · subst hce
      obtain rfl := hseat.unique hc
      have hne : seat' ≠ .stopped ∧ seat' ≠ .runnable := by
        constructor <;> rintro rfl <;> simp [Seat.gate] at hg
      exact .inr (.inl ⟨rfl, hm, hne.2, hroused ⟨rfl, rfl, rfl, fun _ => .refl _, fun _ => .refl _⟩
        rfl hne.1, rfl⟩)
    · exact .inl ((sameSeats_calledOff _ _).sits ((sameSeats_pend _).sits
        (sits_reseat_of_ne hce _ hc)))
  | callOffReply hm hseat =>
    have hsame := s.sameSeats_advanceReply e
    by_cases hce : c = e
    · subst hce
      obtain rfl := hseat.unique hc
      exact .inr (.inl ⟨rfl, hm, by simp, hroused hsame rfl (by simp), rfl⟩)
    · exact .inl ((sameSeats_calledOff _ _).sits ((sameSeats_pend _).sits
        (sits_reseat_of_ne hce _ (hsame.sits hc))))
  | start hm he hseat =>
    by_cases hce : c = e
    · subst hce
      obtain rfl := hseat.unique hc
      exact .inr (.inl ⟨rfl, hm, by simp, (sameSeats_pend _).sits (sits_reseat _ _ _ (fun _ => he)
        (by simp [Seat.gate])), rfl⟩)
    · exact .inl ((sameSeats_pend _).sits (sits_reseat_of_ne hce _ hc))
  | setPriority seat' he _ hseat =>
    left
    by_cases hce : c = e
    · subst hce
      obtain rfl := hseat.unique hc
      exact sits_reseat _ c _ hseat.kind hseat.gate
    · have hsame : (s.updateContext e fun b => { b with priority := m.d0.toNat }).Sits c seat :=
        ⟨by simpa [hce] using hc.body, hc.kind, hc.gate⟩
      exact sits_reseat_of_ne hce _ hsame
  | invalidate he hm =>
    simp only [invalidated, invalidationHook]
    split
    · exact .inl ((((sameSeats_record _ _).trans (sameSeats_loadMpu _ _)).trans
        (sameSeats_bump _ _)).sits hc)
    · by_cases hcm : c = m.d0.toNat
      · refine .inr (.inr ⟨hcm, hm, he, ?_, fun hcurrent => ?_⟩)
        · rw [← hcm]
          split
          · exact (sameSeats_bump _ _).sits ((sameSeats_pend _).sits ((sameSeats_advanceReply _ _).sits
              (sits_reseat _ c _ (by simp) (by simp [Seat.gate]))))
          · exact (sameSeats_bump _ _).sits ((sameSeats_advanceReply _ _).sits
              (sits_reseat _ c _ (by simp) (by simp [Seat.gate])))
        · rw [if_pos (show m.d0.toNat = (s.record _).current from hcm.symm.trans hcurrent)]
          rfl
      · left
        have hother := (sameSeats_advanceReply _ m.d0.toNat).sits (sits_reseat_of_ne
          (s := s.record (.invalidateRequested m.d0 (m.d1 != 0#32))) hcm .stopped
          ((sameSeats_record _ _).sits hc))
        split
        · exact (sameSeats_bump _ _).sits ((sameSeats_pend _).sits hother)
        · exact (sameSeats_bump _ _).sits hother
    · exact .inl ⟨hc.body, hc.kind, hc.gate⟩
    · exact .inl ⟨hc.body, hc.kind, hc.gate⟩
  | split slot =>
    refine .inl (hstay ?_)
    refine (sameSeats_loadMpu _ _).context c |>.seated ?_
    simpa using hc.body
  | makeChild slot => exact .inl (hstay (by simpa [makeChildMemory] using hc.body))
  | become t hok =>
    refine .inl (hstay ?_)
    refine (sameSeats_loadMpu _ _).context c |>.seated ?_
    cases t with
    | context =>
      by_cases hce : c = e
      · subst hce
        obtain rfl := hc.eq_stopped (by simp [hok.memory])
        simpa [buildObject] using ⟨rfl, rfl, rfl⟩
      · simpa [buildObject, hce] using hc.body
    | gate | interrupt => exact hc.body
  | writeKey r => exact .inl ((s.sameSeats_setKeyAt (.keyReg e r) (k 1)).sits hc)
  | setTarget => exact .inl ((s.sameSeats_setKeyAt (.target e) (k 1)).sits hc)
  | writeSave => exact .inl ((s.sameSeats_updateContext e ⟨rfl, rfl, rfl, rfl⟩).sits hc)
  | writeRegion r =>
    have hwrite := (s.sameSeats_setKeyAt (.regionReg e r) (k 1)).sits hc
    left
    split
    · exact (sameSeats_loadMpu _ _).sits hwrite
    · exact hwrite
  | _ => exact .inl ⟨hc.body, hc.kind, hc.gate⟩

/-- A method that leaves no switch pending leaves the current Context in its seat. -/
theorem Effect.running (h : Effect cfg e brand m k s rs s') (hs : s.Running) : s'.Running := by
  intro hpending
  rw [h.current_eq]
  rcases h.sits_cases (hs (h.switchPending hpending)) with hsits | ⟨-, -, hne, -⟩ | ⟨-, -, -, -, hp⟩
  · exact hsits
  · exact absurd rfl hne
  · simp [hpending] at hp

/-- The message of an Interrupt has selector 1; the few methods with that selector leave
nearly everything alone. -/
theorem Effect.selector_one (h : Effect cfg e brand m k s rs s') (hm : m.desc.getSelector = 1#16) :
    s' = s ∨ (∃ x kind b, s' = s.record (.minted x kind b)) ∨
      s.kind e = .interrupt ∧ s' = s.setKeyAt (.target e) (k 1) := by
  cases h with
  | reply | readKey | clientKey | change => exact .inl rfl
  | mint => exact .inr (.inl ⟨_, _, _, rfl⟩)
  | setTarget he => exact .inr (.inr ⟨he, rfl⟩)
  | writeSave method _ _ hmethod hmem =>
    rw [hm] at hmethod
    obtain rfl : ContextMethod.readRegister = method := Option.some.inj hmethod
    simp at hmem
  | writeKey _ _ hmethod | writeRegion _ _ hmethod | callOff _ _ hmethod | callOffReply hmethod
  | start hmethod | setPriority _ _ hmethod | enable _ hmethod | noInvalidate _ _ hmethod
  | invalidate _ hmethod | poke _ _ _ hmethod =>
    rw [hm] at hmethod
    exact absurd hmethod (by decide)
  | split _ hok | makeChild _ hok | become _ hok =>
    have hmethod := hok.method
    rw [hm] at hmethod
    exact absurd hmethod (by decide)

end

/-! ## Settled states -/

theorem KState.looked_cases (s : KState) (kind : Kind) (e : TableIndex) (b : Brand) :
    s.looked kind e b = s ∨ s.looked kind e b = s.record (.consulted e b) := by
  unfold looked
  split
  · exact .inr rfl
  · exact .inl rfl

theorem KState.Steady.record {s : KState} (hs : s.Steady) (ev : Event) : (s.record ev).Steady :=
  ⟨hs.irqTable, by simpa using hs.register0⟩

theorem KState.Steady.looked {s : KState} (hs : s.Steady) (kind : Kind) (e : TableIndex) (b : Brand) :
    (s.looked kind e b).Steady := by
  rcases s.looked_cases kind e b with h | h
  · rwa [h]
  · rw [h]
    exact hs.record _

theorem KState.Running.looked {s : KState} (hs : s.Running) (kind : Kind) (e : TableIndex)
    (b : Brand) : (s.looked kind e b).Running := by
  rcases s.looked_cases kind e b with h | h
  · rwa [h]
  · rw [h]
    exact fun hpending => (sameSeats_record s _).sits (hs hpending)

/-- The consistency checks of the lists; the recursion bound counts as one of them. -/
def Panic.isList : Panic → Prop
  | .nodeAlreadyInList | .corruptNode | .bogusPriority | .reinsertWithoutInsert
  | .nonCurrentBlockInSend | .outOfFuel => True
  | _ => False

/-- The consistency checks that a kernel entry may run into. -/
def Panic.isPossible (p : Panic) : Prop :=
  p ∈ [Panic.memOverflow, .unpredictableAp, .emptyRedirectionTable, .indexOutOfRange,
    .nullRedirectorEntry, .notAwaitingReply, .noRunnable]

theorem Panic.isPossible.not_isList {p : Panic} (h : p.isPossible) : ¬p.isList := by
  intro hlist
  cases p <;> simp [isPossible, isList] at h hlist

/-- The consistency checks that deliveries and methods may run into. -/
def Panic.isServed (p : Panic) : Prop :=
  p ∈ [Panic.memOverflow, .unpredictableAp, .emptyRedirectionTable, .indexOutOfRange, .notAwaitingReply]

theorem Panic.isServed.isPossible {p : Panic} (h : p.isServed) : p.isPossible := by
  simp only [isServed, List.mem_cons, List.not_mem_nil, or_false] at h
  rcases h with rfl | rfl | rfl | rfl | rfl <;> simp [Panic.isPossible]

theorem Panic.isRedirection.isServed {p : Panic} (h : p.isRedirection) : p.isServed := by
  rcases h with rfl | rfl <;> simp [Panic.isServed]

theorem Fault.isServed {cfg : Config} {e : TableIndex} {brand : Brand} {m : Message} {k : Keys}
    {s : KState} {p : Panic} (h : Fault cfg e brand m k s p) : p.isServed := by
  cases h with
  | becomeInterrupt _ hp | invalidateInterrupt _ hp => exact hp.isServed
  | _ => simp [Panic.isServed]

section

variable {cfg : Config} {s : KState}

/-- A system call, message passing and method alike, keeps what stays true throughout. -/
theorem steady_rules (cfg : Config) (req : KState → TableIndex → Brand → Message → Keys → Prop) :
    Rules cfg (.any True) (.any True) (fun s => s.Steady ∧ s.Running)
      (fun s => s.Steady ∧ s.Running) req (fun p _ => p.isPossible) :=
  .any (fun _ h hact => ⟨hact.steady h.1, hact.running h.2⟩)
    (fun _ h hact => ⟨hact.steady h.1, hact.running h.2⟩) (fun _ h => h)
    (fun _ h _ heffect => ⟨heffect.steady (h.1.looked _ _ _), heffect.running (h.2.looked _ _ _)⟩)
    (fun _ _ _ _ hfault _ => hfault.isServed.isPossible) (by simp [Panic.isPossible])

/-- An interrupt keeps it too, and the current Context stays runnable. -/
theorem steady_irq_rules (cfg : Config) (i : TableIndex) (s₀ : KState) :
    Rules cfg (.any False) (.any False) (fun s => s.Steady ∧ s.Sits s.current .runnable)
      (fun s => s.Steady ∧ s.Sits s.current .runnable) (IrqRequest cfg s₀ i)
      (fun p _ => p.isPossible) := by
  have hact : ∀ {s s' : KState}, s.WellFormed → (s.Steady ∧ s.Sits s.current .runnable) →
      Act (.any False) s s' → s'.Steady ∧ s'.Sits s'.current .runnable := by
    intro s s' _ h hact
    refine ⟨hact.steady h.1, ?_⟩
    rw [current_of_objects hact.objects]
    exact hact.sits_runnable id h.2
  refine .any hact hact (fun _ h => h) (fun {s e b m k kind rs s'} _ h hreq heffect => ?_)
    (fun _ _ _ _ hfault _ => hfault.isServed.isPossible) (by simp [Panic.isPossible])
  refine ⟨heffect.steady (h.1.looked _ _ _), ?_⟩
  have hm : m.desc.getSelector = 1#16 := by
    rw [hreq.2.2.1]
    show (Descriptor.zero.withSelector 1#16).getSelector = 1#16
    decide
  have hlooked : (s.looked kind e b).Sits s.current .runnable := (sameSeats_looked s kind e b).sits h.2
  have hcurrent : (s.looked kind e b).current = s.current := by
    rcases s.looked_cases kind e b with h | h <;> simp [h, KState.record]
  rw [heffect.current_eq, hcurrent]
  rcases heffect.selector_one hm with hsame | ⟨x, kind, b, hrec⟩ | ⟨-, hset⟩
  · exact hsame ▸ hlooked
  · exact hrec ▸ (sameSeats_record _ _).sits hlooked
  · exact hset ▸ (sameSeats_setKeyAt _ _ _).sits hlooked

theorem KState.Settled.null_register0 (hs : s.Settled) :
    s.kind (s.target (s.keyAt (.keyReg s.current 0))) = .null := by
  rw [(hs.register0 s.current).target]
  exact hs.wellFormed.null

theorem KState.Settled.switchTo {t : KState} {c : TableIndex} (hs : t.Steady) (hwf : t.WellFormed)
    (hpending : t.switchPending = false) (hc : t.Sits c .runnable) : (t.switchTo c).Settled := by
  have hsame : SameSeats t (t.switchTo c) :=
    (show SameSeats t ({ t.record (.switched c) with current := c } : KState) from
      ⟨rfl, rfl, rfl, fun _ => .refl _, fun _ => .refl _⟩).trans (sameSeats_loadMpu _ _)
  refine ⟨⟨hs.irqTable, fun x => ?_⟩, hwf.of_sameSeats hsame, hpending, hsame.sits hc⟩
  rcases keyAt_loadMpu (s := { t.record (.switched c) with current := c }) c (.keyReg x 0)
    with hkeep | ⟨hblank, -⟩
  · exact hkeep ▸ hs.register0 x
  · exact hblank

/-- What a step does, by the kind of action. -/
theorem step_spec {a : Action} {F : KState → Prop} {E : Panic → KState → Prop}
    (hsvc : ∀ stack regs, a = .svc stack regs → wp (svcEntry cfg stack regs) (fun _ s' => F s') E s)
    (hirq : ∀ n, a = .irq n → n.toNat ≥ 15 → s.irqEnabled (lineOf n.toNat) = true →
      wp (irqRedirector cfg n.toNat) (fun _ s' => F s') E s)
    (hpendSv : ∀ stack regs, a = .pendSv stack regs → s.pendSv = true →
      wp (pendSvEntry stack regs) (fun _ s' => F s') E s)
    (hstore : ∀ x v, a = .store x v → s.mpu.unprivWrites x = true →
      F { s with ram := Function.update s.ram x v })
    (hidle : F s) : wp (step cfg a) (fun _ s' => F s') E s := by
  simp only [step, wp_bind, wp_get]
  cases a with
  | svc stack regs => exact hsvc stack regs rfl
  | irq n =>
    simp only [wp_ite, wp_pure]
    exact ⟨fun h => hirq n rfl h.1 h.2, fun _ => hidle⟩
  | pendSv stack regs =>
    simp only [wp_ite, wp_pure]
    exact ⟨fun h => hpendSv stack regs rfl h, fun _ => hidle⟩
  | store x v =>
    simp only [wp_ite, wp_pure, wp_set]
    exact ⟨fun h => hstore x v rfl h, fun _ => hidle⟩

/-- Every step leads from a settled state to a settled state, or runs into one of a few
checks. -/
theorem step_settled (hcfg : cfg.eagerRevocation = false) (hs : s.Settled) (a : Action) :
    wp (step cfg a) (fun _ s' => s'.Settled) (fun p _ => p.isPossible) s := by
  refine step_spec (fun stack regs _ => ?_) (fun n _ hn _ => ?_) (fun stack regs _ _ => ?_)
    (fun x v _ _ => ?_) hs
  · refine (steady_rules cfg _).svc hcfg hs.wellFormed
      ⟨hs.toSteady, fun _ => hs.running⟩ trivial trivial hs.running
      (fun h => absurd hs.null_register0 h) (fun s' hwf ⟨hsteady, hrunning⟩ => ?_)
      (fun src dst hdst => ?_) hs
    · exact doDeferredSwitch_spec hwf (fun hp => ⟨hsteady, hwf, hp, hrunning hp⟩)
        (fun c hc => KState.Settled.switchTo ⟨hsteady.irqTable, hsteady.register0⟩
          (hwf.of_sameSeats ⟨rfl, rfl, rfl, fun _ => .refl _, fun _ => .refl _⟩) rfl
            ⟨hc.body, hc.kind, hc.gate⟩)
        (by simp [Panic.isPossible])
    · have hsame := s.sameSeats_setKeyAt (.keyReg s.current dst)
        (s.keyAt (.keyReg s.current src))
      refine ⟨⟨hs.irqTable, fun c => ?_⟩, hs.wellFormed.of_sameSeats hsame, hs.noSwitch,
        hsame.sits hs.running⟩
      rw [keyAt_setKeyAt_of_ne (by simpa using fun _ => Ne.symm hdst)]
      exact hs.register0 c
  · refine irqRedirector_spec hn (fun _ p hp => hp.isServed.isPossible) (by simp [Panic.isPossible]) fun i hi _ => ?_
    · have hmasked : (s.masked i).Steady ∧ (s.masked i).Sits (s.masked i).current .runnable :=
        ⟨⟨hs.irqTable, hs.register0⟩, (sameSeats_masked s i).sits hs.running⟩
      refine wp_mono ((steady_irq_rules cfg i s).trigger hcfg hs.wellFormed hmasked trivial
        (hs.irqTable _ i hi)) (fun _ s' ⟨hwf, hsteady, hrunning⟩ => ⟨fun hp => ?_, fun hp => ?_⟩)
          fun _ _ h => h
      · exact ⟨hsteady, hwf, hp, hrunning⟩
      · exact ⟨⟨hsteady.irqTable, hsteady.register0⟩,
          hwf.of_sameSeats ⟨rfl, rfl, rfl, fun _ => .refl _, fun _ => .refl _⟩, rfl,
          ⟨hrunning.body, hrunning.kind, hrunning.gate⟩⟩
  · refine pendSvEntry_spec hs.wellFormed (fun c hc => ?_) (by simp [Panic.isPossible])
    have hsame : SameSeats s (({ s with pendSv := false } : KState).entered stack regs) :=
      (show SameSeats s ({ s with pendSv := false } : KState) from
        ⟨rfl, rfl, rfl, fun _ => .refl _, fun _ => .refl _⟩).trans (sameSeats_entered _ _ _)
    refine KState.Settled.switchTo ⟨hs.irqTable, fun x => ?_⟩ (hs.wellFormed.of_sameSeats hsame)
      hs.noSwitch (hsame.sits hc)
    rw [entered, keyAt_updateContext rfl rfl]
    exact hs.register0 x
  · exact ⟨⟨hs.irqTable, hs.register0⟩,
      hs.wellFormed.of_sameSeats ⟨rfl, rfl, rfl, fun _ => .refl _, fun _ => .refl _⟩, hs.noSwitch,
      ⟨hs.running.body, hs.running.kind, hs.running.gate⟩⟩

end

theorem Booted.settled {app : AppInfo} {s : KState} (h : Booted app s) : s.Settled where
  irqTable := by simp [h.irqTable]
  register0 c := by
    by_cases hc : c = 2
    · subst hc
      simpa [keyAt, h.keys] using ⟨rfl, .inl rfl⟩
    · simpa [keyAt, h.others c hc] using ⟨rfl, .inl rfl⟩
  wellFormed := h.wellFormed
  noSwitch := h.switchPending
  running := h.current ▸ h.runnable

theorem Reachable.settled {cfg : Config} (hcfg : cfg.eagerRevocation = false) {app : AppInfo}
    {s : KState} (h : Reachable cfg app s) : s.Settled :=
  h.invariant (fun _ _ hboot => hboot.booted.settled) fun _ a _ _ hs hstep =>
    wp_ok (a := ()) (Q := fun _ s' => s'.Settled) (step_settled hcfg hs a) hstep

theorem Reachable.possible {cfg : Config} (hcfg : cfg.eagerRevocation = false) {app : AppInfo}
    {s : KState} (h : Reachable cfg app s) {a : Action} {p : Panic} {s' : KState}
    (hstep : BrittleKernel.step cfg a s = .error p s') : p.isPossible :=
  wp_error (E := fun p _ => p.isPossible) (step_settled hcfg (h.settled hcfg) a) hstep

end BrittleKernel
