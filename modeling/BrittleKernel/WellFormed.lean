import BrittleKernel.Seats

/-!
# Well-Formed Kernel States

The invariant of the kernel's lists: every Context sits in a seat, every Interrupt is idle
or queued at a Gate, and items and lists agree.  All later invariants are proved on top of
it.
-/

namespace BrittleKernel

namespace KState

/-! ## The invariant -/

/-- A Context sits in a seat, and the objects the seat involves are of the right kind. -/
structure Sits (s : KState) (c : TableIndex) (seat : Seat) : Prop where
  body : Seated (s.context c) seat
  kind : seat ≠ .stopped → s.kind c = .context
  gate : ∀ g, seat.gate = some g → s.kind g = .gate

/-- An Interrupt is queued at a Gate, or at none. -/
structure Queued (s : KState) (i : TableIndex) (g : Option TableIndex) : Prop where
  item : (s.interrupt i).senderItem = Item.on (g.map .senders) (s.interrupt i).priority
  kind : g ≠ none → s.kind i = .interrupt
  gate : ∀ g', g = some g' → s.kind g' = .gate

/-- The invariant of the lists and of the objects on them. -/
structure WellFormed (s : KState) : Prop where
  null : s.kind 0 = .null
  inTable : ∀ e, s.kind e ≠ .null → e < s.count
  threaded : s.Threaded
  context : ∀ c, ∃ seat, s.Sits c seat
  interrupt : ∀ i, ∃ g, s.Queued i g
  contextPriority : ∀ c, (s.context c).priority < nPriorities
  interruptPriority : ∀ i, (s.interrupt i).priority < nPriorities

variable {s s' : KState}

/-! ## Seats in a well-formed state -/

theorem Sits.unique {c : TableIndex} {seat seat' : Seat} (h : s.Sits c seat)
    (h' : s.Sits c seat') : seat = seat' :=
  h.body.unique h'.body

theorem Queued.unique {i : TableIndex} {q q' : Option TableIndex} (h : s.Queued i q)
    (h' : s.Queued i q') : q = q' := by
  have hitem := congrArg Item.container (h.item.symm.trans h'.item)
  cases q <;> cases q' <;> simp_all [Item.on]

theorem Sits.kind_of_runnable {c : TableIndex} (h : s.Sits c .runnable) : s.kind c = .context :=
  h.kind (by simp)

/-- What is in a Gate's list of senders. -/
theorem WellFormed.mem_senders (h : s.WellFormed) {g : TableIndex} {p : Priority}
    {r : ItemRef} (hr : r ∈ s.queues (.senders g) p) :
    (∃ c, r = .senderItem c ∧ s.Sits c (.sending g)) ∨
      ∃ i, r = .irqItem i ∧ s.Queued i (some g) := by
  rw [h.threaded.mem_iff] at hr
  cases r with
  | ctxItem c =>
    obtain ⟨seat, hseat⟩ := h.context c
    rw [KState.item, hseat.body.ctxItem] at hr
    cases seat <;> simp [Seat.ctxList, Item.on] at hr
  | senderItem c =>
    obtain ⟨seat, hseat⟩ := h.context c
    rw [KState.item, hseat.body.senderItem] at hr
    cases seat <;> simp [Seat.senderList, Item.on] at hr
    obtain ⟨rfl, -⟩ := hr
    exact .inl ⟨c, rfl, hseat⟩
  | irqItem i =>
    obtain ⟨q, hq⟩ := h.interrupt i
    rw [KState.item, hq.item] at hr
    cases q <;> simp [Item.on] at hr
    obtain ⟨rfl, -⟩ := hr
    exact .inr ⟨i, rfl, hq⟩

/-- What is in a Gate's list of receivers. -/
theorem WellFormed.mem_receivers (h : s.WellFormed) {g : TableIndex} {p : Priority}
    {r : ItemRef} (hr : r ∈ s.queues (.receivers g) p) :
    ∃ c, r = .ctxItem c ∧ s.Sits c (.receiving g) := by
  rw [h.threaded.mem_iff] at hr
  cases r with
  | ctxItem c =>
    obtain ⟨seat, hseat⟩ := h.context c
    rw [KState.item, hseat.body.ctxItem] at hr
    cases seat <;> simp [Seat.ctxList, Item.on] at hr
    obtain ⟨rfl, -⟩ := hr
    exact ⟨c, rfl, hseat⟩
  | senderItem c =>
    obtain ⟨seat, hseat⟩ := h.context c
    rw [KState.item, hseat.body.senderItem] at hr
    cases seat <;> simp [Seat.senderList, Item.on] at hr
  | irqItem i =>
    obtain ⟨q, hq⟩ := h.interrupt i
    rw [KState.item, hq.item] at hr
    cases q <;> simp [Item.on] at hr

/-- What is in the run queue. -/
theorem WellFormed.mem_runnable (h : s.WellFormed) {p : Priority} {r : ItemRef}
    (hr : r ∈ s.queues .runnable p) : ∃ c, r = .ctxItem c ∧ s.Sits c .runnable := by
  rw [h.threaded.mem_iff] at hr
  cases r with
  | ctxItem c =>
    obtain ⟨seat, hseat⟩ := h.context c
    rw [KState.item, hseat.body.ctxItem] at hr
    cases seat <;> simp [Seat.ctxList, Item.on] at hr
    exact ⟨c, rfl, hseat⟩
  | senderItem c =>
    obtain ⟨seat, hseat⟩ := h.context c
    rw [KState.item, hseat.body.senderItem] at hr
    cases seat <;> simp [Seat.senderList, Item.on] at hr
  | irqItem i =>
    obtain ⟨q, hq⟩ := h.interrupt i
    rw [KState.item, hq.item] at hr
    cases q <;> simp [Item.on] at hr

/-- The head of a list is one of its members. -/
theorem exists_mem_of_peek {l : ListId} {r : ItemRef} (h : s.peek l = some r) :
    ∃ p, r ∈ s.queues l p := by
  obtain ⟨p, -, hp⟩ := List.exists_of_findSome?_eq_some h
  exact ⟨p, List.mem_of_mem_head? hp⟩

/-! ## Updates that move nobody -/

/-- The fields that a seat is about. -/
structure SameSeat (b b' : Context) : Prop where
  state : b'.state = b.state
  ctxItem : b'.ctxItem = b.ctxItem
  senderItem : b'.senderItem = b.senderItem
  priority : b'.priority = b.priority

theorem SameSeat.refl (b : Context) : SameSeat b b := ⟨rfl, rfl, rfl, rfl⟩

/-- Being seated only depends on the fields a seat is about. -/
theorem SameSeat.seated {b b' : Context} (h : SameSeat b b') {seat : Seat}
    (hb : Seated b seat) : Seated b' seat :=
  ⟨h.state.trans hb.state, by rw [h.ctxItem, h.priority]; exact hb.ctxItem,
    by rw [h.senderItem, h.priority]; exact hb.senderItem⟩

/-- The fields that an Interrupt's place in a queue is about. -/
structure SameQueue (b b' : Interrupt) : Prop where
  senderItem : b'.senderItem = b.senderItem
  priority : b'.priority = b.priority

theorem SameQueue.refl (b : Interrupt) : SameQueue b b := ⟨rfl, rfl⟩

/-- `s'` differs from `s` in nothing the lists are about. -/
structure SameSeats (s s' : KState) : Prop where
  count : s'.count = s.count
  kind : s'.kind = s.kind
  queues : s'.queues = s.queues
  context : ∀ c, SameSeat (s.context c) (s'.context c)
  interrupt : ∀ i, SameQueue (s.interrupt i) (s'.interrupt i)

theorem SameSeat.symm {b b' : Context} (h : SameSeat b b') : SameSeat b' b :=
  ⟨h.state.symm, h.ctxItem.symm, h.senderItem.symm, h.priority.symm⟩

theorem SameSeats.symm (h : SameSeats s s') : SameSeats s' s where
  count := h.count.symm
  kind := h.kind.symm
  queues := h.queues.symm
  context c := (h.context c).symm
  interrupt i := ⟨(h.interrupt i).senderItem.symm, (h.interrupt i).priority.symm⟩

theorem SameSeats.item (h : SameSeats s s') : s'.item = s.item := by
  funext r
  cases r with
  | ctxItem c => exact (h.context c).ctxItem
  | senderItem c => exact (h.context c).senderItem
  | irqItem i => exact (h.interrupt i).senderItem

theorem SameSeats.sits (h : SameSeats s s') {c : TableIndex} {seat : Seat}
    (hc : s.Sits c seat) : s'.Sits c seat :=
  ⟨(h.context c).seated hc.body, by rw [h.kind]; exact hc.kind, by rw [h.kind]; exact hc.gate⟩

theorem SameSeats.queued (h : SameSeats s s') {i : TableIndex} {g : Option TableIndex}
    (hi : s.Queued i g) : s'.Queued i g :=
  ⟨by rw [(h.interrupt i).senderItem, (h.interrupt i).priority]; exact hi.item,
    by rw [h.kind]; exact hi.kind, by rw [h.kind]; exact hi.gate⟩

theorem WellFormed.of_sameSeats (hs : s.WellFormed) (h : SameSeats s s') : s'.WellFormed where
  null := by rw [h.kind]; exact hs.null
  inTable := by rw [h.kind, h.count]; exact hs.inTable
  threaded := hs.threaded.congr h.item h.queues
  context c := (hs.context c).imp fun _ => h.sits
  interrupt i := (hs.interrupt i).imp fun _ => h.queued
  contextPriority c := by rw [(h.context c).priority]; exact hs.contextPriority c
  interruptPriority i := by rw [(h.interrupt i).priority]; exact hs.interruptPriority i

theorem sameSeats_updateContext (s : KState) (c : TableIndex) {f : Context → Context}
    (hf : SameSeat (s.context c) (f (s.context c))) : SameSeats s (s.updateContext c f) where
  count := rfl
  kind := rfl
  queues := rfl
  context x := by
    by_cases hx : x = c
    · subst hx; simpa using hf
    · simpa [hx] using SameSeat.refl _
  interrupt _ := SameQueue.refl _

theorem sameSeats_updateInterrupt (s : KState) (i : TableIndex) {f : Interrupt → Interrupt}
    (hf : SameQueue (s.interrupt i) (f (s.interrupt i))) :
    SameSeats s (s.updateInterrupt i f) where
  count := rfl
  kind := rfl
  queues := rfl
  context _ := SameSeat.refl _
  interrupt x := by
    by_cases hx : x = i
    · subst hx; simpa using hf
    · simpa [hx] using SameQueue.refl _

theorem sameSeats_setKeyAt (s : KState) (loc : KeyLoc) (k : Key) :
    SameSeats s (s.setKeyAt loc k) := by
  cases loc with
  | keyReg c i | regionReg c i =>
    simp only [setKeyAt]
    exact s.sameSeats_updateContext c ⟨rfl, rfl, rfl, rfl⟩
  | target i =>
    simp only [setKeyAt]
    exact s.sameSeats_updateInterrupt i ⟨rfl, rfl⟩

/-! ## Moves -/

/-- Reseating a Context, after an update of its body that leaves its items alone, keeps the
invariant. -/
theorem WellFormed.reseat_update (h : s.WellFormed) (c : TableIndex) (f : Context → Context)
    (hctx : (f (s.context c)).ctxItem = (s.context c).ctxItem)
    (hsender : (f (s.context c)).senderItem = (s.context c).senderItem)
    (hpriority : (f (s.context c)).priority < nPriorities)
    {seat : Seat} (hkind : seat ≠ .stopped → s.kind c = .context)
    (hgate : ∀ g, seat.gate = some g → s.kind g = .gate) :
    ((s.updateContext c f).reseat c seat).WellFormed where
  null := h.null
  inTable := h.inTable
  threaded := by
    refine Threaded.reseat (s := s.updateContext c f)
      (h.threaded.congr (funext fun r => ?_) rfl) c seat
    cases r with
    | ctxItem x | senderItem x =>
      by_cases hx : x = c
      · subst hx; simp [KState.item, hctx, hsender]
      · simp [KState.item, hx]
    | irqItem i => rfl
  context x := by
    by_cases hx : x = c
    · subst hx
      exact ⟨seat, ⟨by simp [reseat], by simp [reseat], by simp [reseat]⟩, hkind, hgate⟩
    · obtain ⟨seat', hseat'⟩ := h.context x
      exact ⟨seat', by simpa [reseat, hx] using hseat'.body, hseat'.kind, hseat'.gate⟩
  interrupt i := (h.interrupt i).imp fun _ hi => ⟨hi.item, hi.kind, hi.gate⟩
  contextPriority x := by
    by_cases hx : x = c
    · subst hx; simpa [reseat] using hpriority
    · simpa [reseat, hx] using h.contextPriority x
  interruptPriority := h.interruptPriority

@[simp] theorem updateContext_self (s : KState) (c : TableIndex) :
    (s.updateContext c fun b => b) = s := by
  simp [updateContext]

theorem WellFormed.reseat (h : s.WellFormed) (c : TableIndex) (seat : Seat)
    (hkind : seat ≠ .stopped → s.kind c = .context)
    (hgate : ∀ g, seat.gate = some g → s.kind g = .gate) : (s.reseat c seat).WellFormed := by
  simpa using h.reseat_update c (fun b => b) rfl rfl (h.contextPriority c) hkind hgate

theorem sits_reseat (s : KState) (c : TableIndex) (seat : Seat)
    (hkind : seat ≠ .stopped → s.kind c = .context)
    (hgate : ∀ g, seat.gate = some g → s.kind g = .gate) : (s.reseat c seat).Sits c seat :=
  ⟨⟨by simp [KState.reseat], by simp [KState.reseat], by simp [KState.reseat]⟩, hkind, hgate⟩

theorem sits_reseat_of_ne {c x : TableIndex} (hx : x ≠ c) {seat' : Seat} (seat : Seat)
    (h : s.Sits x seat') : (s.reseat c seat).Sits x seat' :=
  ⟨by simpa [KState.reseat, hx] using h.body, h.kind, h.gate⟩

/-- Moving an Interrupt to another queue keeps the invariant. -/
theorem WellFormed.requeue (h : s.WellFormed) (i : TableIndex) {g : Option TableIndex}
    (hkind : g ≠ none → s.kind i = .interrupt) (hgate : ∀ g', g = some g' → s.kind g' = .gate) :
    (s.requeue i (g.map .senders)).WellFormed where
  null := h.null
  inTable := h.inTable
  threaded := h.threaded.requeue i _
  context c := (h.context c).imp fun _ hc => ⟨hc.body, hc.kind, hc.gate⟩
  interrupt x := by
    by_cases hx : x = i
    · subst hx
      exact ⟨g, by simp [KState.requeue], hkind, hgate⟩
    · obtain ⟨g', hg'⟩ := h.interrupt x
      exact ⟨g', by simpa [KState.requeue, hx] using hg'.item, hg'.kind, hg'.gate⟩
  contextPriority := h.contextPriority
  interruptPriority x := by
    by_cases hx : x = i
    · subst hx; simpa [KState.requeue] using h.interruptPriority x
    · simpa [KState.requeue, hx] using h.interruptPriority x

end KState

end BrittleKernel
