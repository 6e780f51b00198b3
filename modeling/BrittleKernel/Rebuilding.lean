import BrittleKernel.Effects

/-!
# Methods Keep States Well Formed

Every effect of a method leaves the lists in order.  The interesting ones are those that
rebuild an entry as another kind of object: nobody can be waiting in an entry that held
Memory, or at one.
-/

namespace BrittleKernel

open KState

namespace KState

variable {s s' : KState}

/-- An entry that holds no Context sits nobody. -/
theorem Sits.eq_stopped {c : TableIndex} {seat : Seat} (h : s.Sits c seat)
    (hc : s.kind c ≠ .context) : seat = .stopped := by
  by_contra hne
  exact hc (h.kind hne)

theorem Queued.eq_none {i : TableIndex} {g : Option TableIndex} (h : s.Queued i g)
    (hi : s.kind i ≠ .interrupt) : g = none := by
  by_contra hne
  exact hi (h.kind hne)

/-- Rebuilding an entry that held Memory or a Slot, with a body that is on no list. -/
theorem WellFormed.rebuild (h : s.WellFormed) {e : TableIndex} (kind : Kind)
    (he : s.kind e = .memory ∨ s.kind e = .slot)
    (hkind : s'.kind = Function.update s.kind e kind) (hcount : s'.count = s.count)
    (hqueues : s'.queues = s.queues)
    (hcontext : ∀ c, c ≠ e → SameSeat (s.context c) (s'.context c))
    (hinterrupt : ∀ i, i ≠ e → SameQueue (s.interrupt i) (s'.interrupt i))
    (hbody : Seated (s'.context e) .stopped) (hpriority : (s'.context e).priority < nPriorities)
    (hitem : (s'.interrupt e).senderItem = {})
    (hpriority' : (s'.interrupt e).priority < nPriorities) : s'.WellFormed := by
  have hloose : ∀ r : ItemRef, r.owner = e → s'.item r = {} ∧ s.item r = {} := by
    obtain ⟨seat, hseat⟩ := h.context e
    obtain ⟨q, hq⟩ := h.interrupt e
    obtain rfl := hseat.eq_stopped (by rcases he with he | he <;> simp [he])
    obtain rfl := hq.eq_none (by rcases he with he | he <;> simp [he])
    rintro (c | c | i) rfl
    · exact ⟨hbody.ctxItem, hseat.body.ctxItem⟩
    · exact ⟨hbody.senderItem, hseat.body.senderItem⟩
    · exact ⟨hitem, hq.item⟩
  have hsame : s'.item = s.item := by
    funext r
    by_cases hr : r.owner = e
    · rw [(hloose r hr).1, (hloose r hr).2]
    · cases r with
      | ctxItem c => exact (hcontext c hr).ctxItem
      | senderItem c => exact (hcontext c hr).senderItem
      | irqItem i => exact (hinterrupt i hr).senderItem
  have hne : ∀ x, s.kind x ≠ .memory → s.kind x ≠ .slot → x ≠ e := by
    rintro x hx hx' rfl
    exact he.elim hx hx'
  have hkept : ∀ x, x ≠ e → s'.kind x = s.kind x := fun x hx => by simp [hkind, hx]
  refine ⟨?_, ?_, h.threaded.congr hsame hqueues, fun c => ?_, fun i => ?_, fun c => ?_, fun i => ?_⟩
  · rw [hkept 0 (hne 0 (by simp [h.null]) (by simp [h.null]))]
    exact h.null
  · intro x hx
    rw [hcount]
    refine h.inTable x fun hnull => hx ?_
    rw [hkept x (hne x (by simp [hnull]) (by simp [hnull])), hnull]
  · by_cases hc : c = e
    · subst hc
      exact ⟨.stopped, hbody, by simp, by simp [Seat.gate]⟩
    · obtain ⟨seat, hseat⟩ := h.context c
      refine ⟨seat, (hcontext c hc).seated hseat.body, fun hs => ?_, fun g hg => ?_⟩
      · rw [hkept c hc]
        exact hseat.kind hs
      · have hgate := hseat.gate g hg
        rw [hkept g (hne g (by simp [hgate]) (by simp [hgate]))]
        exact hgate
  · by_cases hi : i = e
    · subst hi
      exact ⟨none, hitem, by simp, by simp⟩
    · obtain ⟨q, hq⟩ := h.interrupt i
      refine ⟨q, ?_, fun hs => ?_, fun g hg => ?_⟩
      · rw [(hinterrupt i hi).senderItem, (hinterrupt i hi).priority]
        exact hq.item
      · rw [hkept i hi]
        exact hq.kind hs
      · have hgate := hq.gate g hg
        rw [hkept g (hne g (by simp [hgate]) (by simp [hgate]))]
        exact hgate
  · by_cases hc : c = e
    · exact hc ▸ hpriority
    · rw [(hcontext c hc).priority]
      exact h.contextPriority c
  · by_cases hi : i = e
    · exact hi ▸ hpriority'
    · rw [(hinterrupt i hi).priority]
      exact h.interruptPriority i

theorem sameSeats_loadMpu (s : KState) (c : TableIndex) : SameSeats s (s.loadMpu c) where
  count := rfl
  kind := rfl
  queues := rfl
  context x := by
    by_cases hx : x = c
    · subst hx; simpa [loadMpu] using ⟨rfl, rfl, rfl, rfl⟩
    · simpa [loadMpu, hx] using SameSeat.refl _
  interrupt _ := .refl _

theorem sameSeats_bump (s : KState) (e : TableIndex) : SameSeats s (s.bump e) :=
  ⟨rfl, rfl, rfl, fun _ => .refl _, fun _ => .refl _⟩

theorem sameSeats_orphan (s : KState) (e : TableIndex) : SameSeats s (s.orphan e) := by
  refine ⟨by simp, by simp, by simp, fun c => ?_, fun i => ?_⟩
  · rw [context_orphan]
    exact .refl _
  · rw [interrupt_orphan]
    exact .refl _

theorem sameSeats_calledOff (s : KState) (c : TableIndex) : SameSeats s (s.calledOff c) :=
  (s.sameSeats_updateContext c ⟨rfl, rfl, rfl, rfl⟩).trans (sameSeats_record _ _)

/-- An entry turns into Memory. -/
theorem WellFormed.buildMemory (h : s.WellFormed) {e : TableIndex}
    (he : s.kind e = .memory ∨ s.kind e = .slot) (base size attributes : Word)
    (parent : Option TableIndex) : (s.buildMemory e base size attributes parent).WellFormed := by
  obtain ⟨seat, hseat⟩ := h.context e
  obtain ⟨q, hq⟩ := h.interrupt e
  obtain rfl := hseat.eq_stopped (by rcases he with he | he <;> simp [he])
  obtain rfl := hq.eq_none (by rcases he with he | he <;> simp [he])
  refine h.rebuild .memory he (by simp) (by simp) (by simp) (fun c _ => ?_)
    (fun i _ => ?_) ?_ ?_ ?_ ?_
  · rw [context_buildMemory]; exact .refl _
  · rw [interrupt_buildMemory]; exact .refl _
  · rw [context_buildMemory]; exact hseat.body
  · rw [context_buildMemory]; exact h.contextPriority e
  · rw [interrupt_buildMemory]; exact hq.item
  · rw [interrupt_buildMemory]; exact h.interruptPriority e

/-- A Memory entry turns into another object. -/
theorem WellFormed.buildObject (h : s.WellFormed) {e : TableIndex} (he : s.kind e = .memory)
    (t : TypeCode) (body argument : Word) : (s.buildObject t e body argument).WellFormed := by
  obtain ⟨seat, hseat⟩ := h.context e
  obtain ⟨q, hq⟩ := h.interrupt e
  obtain rfl := hseat.eq_stopped (by simp [he])
  obtain rfl := hq.eq_none (by simp [he])
  cases t with
  | context =>
    refine h.rebuild .context (.inl he) rfl rfl rfl (fun c hc => ?_)
      (fun _ _ => .refl _) ?_ ?_ hq.item (h.interruptPriority e)
    · simpa [KState.buildObject, hc] using SameSeat.refl _
    · simpa [KState.buildObject] using ⟨rfl, rfl, rfl⟩
    · simp [KState.buildObject]
  | gate =>
    -- Nobody was waiting at an entry that held Memory, so both lists were empty already.
    have hempty : ∀ l, l = .senders e ∨ l = .receivers e → s.queues l = fun _ => [] := by
      intro l hl
      funext p
      refine List.eq_nil_iff_forall_not_mem.mpr fun r hr => ?_
      rcases hl with rfl | rfl
      · rcases h.mem_senders hr with ⟨c, -, hc⟩ | ⟨i, -, hi⟩
        · simpa [he] using hc.gate e rfl
        · simpa [he] using hi.gate e rfl
      · obtain ⟨c, -, hc⟩ := h.mem_receivers hr
        simpa [he] using hc.gate e rfl
    have hqueues : (s.buildObject .gate e body argument).queues = s.queues := by
      funext l
      by_cases hr : l = .receivers e
      · rw [hempty l (.inr hr)]; simp [KState.buildObject, hr]
      · by_cases hs : l = .senders e
        · rw [hempty l (.inl hs)]; simp [KState.buildObject, hs]
        · simp [KState.buildObject, hr, hs]
    exact h.rebuild .gate (.inl he) rfl rfl hqueues (fun _ _ => .refl _)
      (fun _ _ => .refl _) hseat.body (h.contextPriority e) hq.item (h.interruptPriority e)
  | interrupt =>
    refine h.rebuild .interrupt (.inl he) rfl rfl rfl (fun _ _ => .refl _)
      (fun i hi => ?_) hseat.body (h.contextPriority e) ?_ ?_
    · simpa [KState.buildObject, hi] using SameQueue.refl _
    · simp [KState.buildObject]
    · simp [KState.buildObject]

theorem WellFormed.invalidated (h : s.WellFormed) (e : TableIndex) : (s.invalidated e).WellFormed := by
  refine WellFormed.of_sameSeats (s := s.invalidationHook e) ?_ (sameSeats_bump _ _)
  unfold KState.invalidationHook
  split
  · exact h.of_sameSeats (sameSeats_loadMpu _ _)
  next hkind =>
    have hstop := (WellFormed.reseat h e .stopped (by simp) (by simp [Seat.gate])).of_sameSeats
      (sameSeats_advanceReply _ e)
    dsimp only
    split
    · exact hstop.of_sameSeats (sameSeats_pend _)
    · exact hstop
  next hkind =>
    have hs₁ : ({ s with
        irqEnabled := Function.update s.irqEnabled (s.interrupt e).identifier false } : KState).WellFormed :=
      h.of_sameSeats ⟨rfl, rfl, rfl, fun _ => .refl _, fun _ => .refl _⟩
    exact (hs₁.requeue e (g := none) (by simp) (by simp)).of_sameSeats
      ⟨rfl, rfl, rfl, fun _ => .refl _, fun _ => .refl _⟩
  · exact h

end KState

/-- Every effect keeps the state well formed. -/
theorem Effect.wellFormed {cfg : Config} {e : TableIndex} {brand : Brand} {m : Message} {k : Keys}
    {s s' : KState} {rs : ReplySender} (h : Effect cfg e brand m k s rs s') (hs : s.WellFormed) :
    s'.WellFormed := by
  cases h with
  | reply | readKey | clientKey | change => exact hs
  | writeSave => exact hs.of_sameSeats (s.sameSeats_updateContext e ⟨rfl, rfl, rfl, rfl⟩)
  | writeKey | setTarget => exact hs.of_sameSeats (s.sameSeats_setKeyAt _ _)
  | writeRegion r =>
    have hwrite := hs.of_sameSeats (s.sameSeats_setKeyAt (.regionReg e r) (k 1))
    split
    · exact hwrite.of_sameSeats (sameSeats_loadMpu _ _)
    · exact hwrite
  | callOff seat g _ hseat hg =>
    have hkind : s.kind e = .context := hseat.kind (by rintro rfl; simp [Seat.gate] at hg)
    exact ((hs.reseat e _ (fun _ => hkind) (by simp [Seat.gate])).of_sameSeats
      (sameSeats_pend _)).of_sameSeats (sameSeats_calledOff _ _)
  | callOffReply _ hseat =>
    have hsame := s.sameSeats_advanceReply e
    exact (((hs.of_sameSeats hsame).reseat e _ (fun _ => hsame.kind ▸ hseat.kind (by simp))
      (by simp [Seat.gate])).of_sameSeats (sameSeats_pend _)).of_sameSeats (sameSeats_calledOff _ _)
  | start _ hkind => exact (hs.reseat e _ (fun _ => hkind) (by simp [Seat.gate])).of_sameSeats (sameSeats_pend _)
  | setPriority seat _ _ hseat hp => exact hs.reseat_update e _ rfl rfl hp hseat.kind hseat.gate
  | enable | poke => exact hs.of_sameSeats ⟨rfl, rfl, rfl, fun _ => .refl _, fun _ => .refl _⟩
  | mint | noInvalidate => exact hs.of_sameSeats (sameSeats_record _ _)
  | invalidate => exact (hs.of_sameSeats (sameSeats_record _ _)).invalidated _
  | split slot hok =>
    have he := hok.memory
    have hslot := hok.slot
    have hne : e ≠ slot := by rintro rfl; simp [he] at hslot
    have htop := (hs.of_sameSeats (sameSeats_bump s slot)).buildMemory (.inr hslot)
      ((s.memory e).base + m.d0) ((s.memory e).size - m.d0) (s.memory e).attributes none
    have hbottom := ((htop.of_sameSeats (sameSeats_orphan _ e)).of_sameSeats
      (sameSeats_bump _ e)).buildMemory (e := e) (.inl (by simp [hne, he])) (s.memory e).base m.d0
        (s.memory e).attributes none
    exact hbottom.of_sameSeats (sameSeats_loadMpu _ _)
  | makeChild slot hok =>
    exact (hs.of_sameSeats (sameSeats_bump s slot)).buildMemory (.inr hok.slot) _ _ _ _
  | become t hok =>
    exact (((hs.of_sameSeats (sameSeats_bump s e)).buildObject hok.memory t _ _).of_sameSeats
      (sameSeats_record _ _)).of_sameSeats (sameSeats_loadMpu _ _)

end BrittleKernel
