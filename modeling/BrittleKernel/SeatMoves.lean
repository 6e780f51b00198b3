import BrittleKernel.WellFormed

/-!
# List Operations as Moves

Each Context state change of the kernel, run on a well-formed state, is a move from one
seat to another.  The rules below rewrite the operation to the move; in particular none of
the list checks can fire.
-/

namespace BrittleKernel

open Hoare

namespace KState

variable {s : KState}

/-- `pend_switch`. -/
def pend (s : KState) : KState := { s with switchPending := true }

@[simp] theorem objects_pend : s.pend.objects = s.objects := rfl

theorem sameSeats_pend (s : KState) : SameSeats s s.pend :=
  ⟨rfl, rfl, rfl, fun _ => .refl _, fun _ => .refl _⟩

/-! ## Unlinking and linking -/

theorem Threaded.erase_loose (h : s.Threaded) {r : ItemRef} (hr : (s.item r).ring = none)
    (l : ListId) (p : Priority) : (s.queues l p).erase r = s.queues l p :=
  List.erase_of_not_mem (h.not_mem hr l p)

/-- Erasing an item from every list takes it off the one it is on. -/
theorem unlink_eq (h : s.Threaded) (r : ItemRef) :
    s.unlink r = { s.setItem r {} with queues := fun l p => (s.queues l p).erase r } := by
  unfold unlink
  split
  next l₀ p₀ hring =>
    have hqueues : (s.setQueue l₀ p₀ ((s.queues l₀ p₀).erase r)).queues =
        fun l p => (s.queues l p).erase r := by
      funext l p
      by_cases hl : l = l₀
      · by_cases hp : p = p₀
        · simp [setQueue, hl, hp]
        · have : r ∉ s.queues l p := by simp [h.mem_iff, hring, Ne.symm hp]
          subst hl
          simp [setQueue, hp, List.erase_of_not_mem this]
      · have : r ∉ s.queues l p := by simp [h.mem_iff, hring, Ne.symm hl]
        simp [setQueue, hl, List.erase_of_not_mem this]
    rw [← hqueues]
    cases r <;> rfl
  next hring =>
    have hqueues : (fun l p => (s.queues l p).erase r) = s.queues :=
      funext fun l => funext fun p => h.erase_loose hring l p
    rw [hqueues]
    cases r <;> rfl

/-- Linking an item appends it to one list. -/
theorem link_eq (s : KState) (l : ListId) (p : Priority) (r : ItemRef) :
    s.link l p r =
      { s.setItem r (Item.on (some l) p) with
        queues := fun l' p' =>
          s.queues l' p' ++ if some l = some l' ∧ p' = p then [r] else [] } := by
  have hqueues : (s.setQueue l p (s.queues l p ++ [r])).queues =
      fun l' p' => s.queues l' p' ++ if some l = some l' ∧ p' = p then [r] else [] := by
    funext l' p'
    by_cases hl : l' = l
    · by_cases hp : p' = p
      · simp [setQueue, hl, hp]
      · subst hl; simp [setQueue, hp]
    · simp [setQueue, hl, Ne.symm hl]
  rw [← hqueues]
  cases r <;> rfl

theorem item_setItem (s : KState) (r : ItemRef) (it : Item) :
    (s.setItem r it).item = Function.update s.item r it := by
  funext x
  by_cases hx : x = r
  · subst hx
    cases x <;> simp [setItem, item]
  · rw [Function.update_of_ne hx]
    cases r with
    | ctxItem c | senderItem c =>
      cases x with
      | ctxItem x | senderItem x =>
        by_cases hc : x = c
        · subst hc; simp_all [setItem, item]
        · simp [setItem, item, hc]
      | irqItem i => rfl
    | irqItem i =>
      cases x with
      | ctxItem x | senderItem x => rfl
      | irqItem x =>
        have hi : x ≠ i := fun h => hx (congrArg _ h)
        simp [setItem, item, hi]

theorem item_unlink (h : s.Threaded) (r : ItemRef) :
    (s.unlink r).item = Function.update s.item r {} := by
  rw [unlink_eq h]
  exact s.item_setItem r {}

theorem Threaded.unlink (h : s.Threaded) (r : ItemRef) : (s.unlink r).Threaded := by
  refine Intrusive.Consistent.congr_link
    (?_ : Intrusive.Consistent (Function.update (fun x => (s.item x).ring) r none)
      fun q => (s.unlink r).queues q.1 q.2) fun x => ?_
  · rw [unlink_eq h]
    exact Intrusive.Consistent.detach h r
  · rw [item_unlink h]
    by_cases hx : x = r
    · subst hx; simp
    · simp [hx]

theorem unlink_loose {r : ItemRef} (hr : s.item r = {}) : s.unlink r = s := by
  unfold unlink
  rw [hr]
  cases r with
  | ctxItem c | senderItem c =>
    simp only [item] at hr
    simp [setItem, updateContext, ← hr]
  | irqItem i =>
    simp only [item] at hr
    simp [setItem, updateInterrupt, ← hr]

theorem Threaded.link (h : s.Threaded) {r : ItemRef} (hr : (s.item r).ring = none)
    (l : ListId) (p : Priority) : (s.link l p r).Threaded := by
  refine Intrusive.Consistent.congr_link
    (?_ : Intrusive.Consistent (Function.update (fun x => (s.item x).ring) r (some (l, p)))
      fun q => (s.link l p r).queues q.1 q.2) fun x => ?_
  · have hmembers : (fun q : ListId × Priority => (s.link l p r).queues q.1 q.2) =
        fun q => s.queues q.1 q.2 ++ if q = (l, p) then [r] else [] := by
      funext ⟨l', p'⟩
      simp [link_eq, @eq_comm _ l]
    exact hmembers ▸ Intrusive.Consistent.attach h hr (l, p)
  · have hitem : (s.link l p r).item = Function.update s.item r (Item.on (some l) p) := by
      rw [link_eq]
      exact s.item_setItem r _
    rw [hitem]
    by_cases hx : x = r
    · subst hx; simp
    · simp [hx]

theorem Threaded.erase_erase (h : s.Threaded) (r : ItemRef) (l : ListId) (p : Priority) :
    ((s.queues l p).erase r).erase r = (s.queues l p).erase r :=
  List.erase_of_not_mem (List.Nodup.not_mem_erase (Intrusive.Consistent.nodup h (l, p)))

/-- A move starts by taking both items off their lists, so it does not matter whether one
of them is off already. -/
theorem reseat_unlink_ctxItem (h : s.Threaded) (c : TableIndex) (seat : Seat) :
    (s.unlink (.ctxItem c)).reseat c seat = s.reseat c seat := by
  rw [unlink_eq h]
  simp [reseat, setItem, updateContext, h.erase_erase]

theorem reseat_unlink_senderItem (h : s.Threaded) (c : TableIndex) (seat : Seat) :
    (s.unlink (.senderItem c)).reseat c seat = s.reseat c seat := by
  have htwice : ∀ l p, (((s.queues l p).erase (.senderItem c)).erase (.ctxItem c)).erase
      (.senderItem c) = ((s.queues l p).erase (.ctxItem c)).erase (.senderItem c) := by
    intro l p
    rw [List.erase_comm (ItemRef.senderItem c)]
    simpa [unlink_eq h] using (h.unlink (.ctxItem c)).erase_erase (.senderItem c) l p
  rw [unlink_eq h]
  simp [reseat, setItem, updateContext, htwice]

end KState

/-! ## Moves of a Context -/

section Moves

variable {s : KState} {c g : TableIndex} {Q : PUnit → KState → Prop}
  {E : Panic → KState → Prop}

open KState

theorem wp_listInsert {l : ListId} {r : ItemRef} (hitem : s.item r = {})
    (hpriority : s.ownerPriority r < nPriorities) :
    wp (listInsert l r) Q E s ↔ Q ⟨⟩ (s.link l (s.ownerPriority r) r) := by
  have hbound : decide (s.ownerPriority r < nPriorities) = true := decide_eq_true hpriority
  simp only [listInsert, wp_bind, wp_get, panicIf, panicUnless, hitem, hbound, Option.isSome_none,
    Bool.false_eq_true, if_false, if_true, wp_pure, wp_set]

/-- Making a Context runnable whose items are off all lists. -/
theorem wp_makeRunnable (h : s.Threaded) (hctx : (s.context c).ctxItem = {})
    (hsender : (s.context c).senderItem = {}) (hpriority : (s.context c).priority < nPriorities) :
    wp (Context.makeRunnable c) Q E s ↔ Q ⟨⟩ (s.reseat c .runnable).pend := by
  have hctx' := h.erase_loose (r := .ctxItem c) (by simp [item, hctx])
  have hsender' := h.erase_loose (r := .senderItem c) (by simp [item, hsender])
  have hmove : ((s.link .runnable (s.context c).priority (.ctxItem c)).updateContext c
      fun b => { b with state := .runnable }).pend = (s.reseat c .runnable).pend := by
    rw [link_eq]
    simp [setItem, updateContext, reseat, pend, Seat.state, Seat.ctxList, Seat.senderList, hctx',
      hsender', hsender]
  simp only [Context.makeRunnable, wp_bind,
    wp_listInsert (r := .ctxItem c) hctx hpriority, wp_modify, pendSwitch]
  rw [← hmove]
  rfl

/-- A Context just taken off a Gate's list of receivers becomes runnable. -/
theorem wp_makeRunnable_receiver (h : s.WellFormed) (hc : s.Sits c (.receiving g)) :
    wp (Context.makeRunnable c) Q E (s.unlink (.ctxItem c)) ↔
      Q ⟨⟩ (s.reseat c .runnable).pend := by
  have hbody : (s.unlink (.ctxItem c)).context c = { s.context c with ctxItem := {} } := by
    simp [unlink_eq h.threaded, setItem]
  have hsender : (s.context c).senderItem = {} := hc.body.senderItem
  rw [wp_makeRunnable (h.threaded.unlink _) (by simp [hbody]) (by simpa [hbody] using hsender)
    (by simpa [hbody] using h.contextPriority c), reseat_unlink_ctxItem h.threaded]

/-- A Context just taken off a Gate's list of senders becomes runnable. -/
theorem wp_makeRunnable_sender (h : s.WellFormed) (hc : s.Sits c (.sending g)) :
    wp (Context.makeRunnable c) Q E (s.unlink (.senderItem c)) ↔
      Q ⟨⟩ (s.reseat c .runnable).pend := by
  have hbody : (s.unlink (.senderItem c)).context c = { s.context c with senderItem := {} } := by
    simp [unlink_eq h.threaded, setItem]
  have hctx : (s.context c).ctxItem = {} := hc.body.ctxItem
  rw [wp_makeRunnable (h.threaded.unlink _) (by simpa [hbody] using hctx) (by simp [hbody])
    (by simpa [hbody] using h.contextPriority c), reseat_unlink_senderItem h.threaded]

/-- A Context that is on no list becomes runnable. -/
theorem wp_makeRunnable_loose (h : s.WellFormed) {seat : Seat} (hc : s.Sits c seat)
    (hctx : seat.ctxList = none) (hsender : seat.senderList = none) :
    wp (Context.makeRunnable c) Q E s ↔ Q ⟨⟩ (s.reseat c .runnable).pend :=
  wp_makeRunnable h.threaded (by simp [hc.body.ctxItem, hctx])
    (by simp [hc.body.senderItem, hsender]) (h.contextPriority c)

theorem wp_blockInReceive (h : s.WellFormed) (hc : s.Sits c .runnable) :
    wp (Context.blockInReceive c (.receivers g)) Q E s ↔
      Q ⟨⟩ (s.reseat c (.receiving g)).pend := by
  have hsender : (s.context c).senderItem = {} := hc.body.senderItem
  have hsender' := h.threaded.erase_loose (r := .senderItem c) (by simp [item, hsender])
  have hmove : (((s.unlink (.ctxItem c)).link (.receivers g) (s.context c).priority
      (.ctxItem c)).updateContext c fun b => { b with state := .receiving }).pend =
      (s.reseat c (.receiving g)).pend := by
    rw [link_eq, unlink_eq h.threaded]
    simp [setItem, updateContext, reseat, pend, Seat.state, Seat.ctxList, Seat.senderList,
      List.erase_comm (ItemRef.ctxItem c) (ItemRef.senderItem c), hsender', hsender]
  have hitem : (s.unlink (.ctxItem c)).item (.ctxItem c) = {} := by
    simp [item_unlink h.threaded]
  have hpriority : (s.unlink (.ctxItem c)).ownerPriority (.ctxItem c) = (s.context c).priority := by
    simp [ownerPriority, unlink_eq h.threaded, setItem]
  simp only [Context.blockInReceive, itemUnlink, wp_bind, wp_modify, pendSwitch,
    wp_listInsert hitem (hpriority ▸ h.contextPriority c), hpriority]
  rw [← hmove]
  rfl

theorem wp_blockInReply (h : s.WellFormed) (hc : s.Sits c .runnable) :
    wp (Context.blockInReply c) Q E s ↔ Q ⟨⟩ (s.reseat c .awaiting).pend := by
  have hsender : (s.context c).senderItem = {} := hc.body.senderItem
  have hsender' := h.threaded.erase_loose (r := .senderItem c) (by simp [item, hsender])
  have hmove : ((s.unlink (.ctxItem c)).updateContext c fun b =>
      { b with state := .receiving }).pend = (s.reseat c .awaiting).pend := by
    rw [unlink_eq h.threaded]
    simp [setItem, updateContext, reseat, pend, Seat.state, Seat.ctxList, Seat.senderList,
      List.erase_comm (ItemRef.ctxItem c) (ItemRef.senderItem c), hsender', hsender]
  simp only [Context.blockInReply, itemUnlink, wp_bind, wp_modify, pendSwitch]
  rw [← hmove]
  rfl

/-- The body of a Context that starts to block in a send. -/
def KState.saveBrand (s : KState) (c : TableIndex) (brand : Brand) : KState :=
  s.updateContext c fun b => { b with savedBrand := brand }

/-- Blocking in a send, by the current Context and with its block bit set. -/
theorem wp_blockInSend (h : s.WellFormed) (hc : s.Sits c .runnable) (hcurrent : c = s.current)
    (hblock : (s.context c).save.message.desc.getBlock = true) {brand : Brand} :
    wp (Context.blockInSend c brand (.senders g)) Q E s ↔
      Q ⟨⟩ ((s.saveBrand c brand).reseat c (.sending g)).pend := by
  have hsender : (s.context c).senderItem = {} := hc.body.senderItem
  have hthreaded : (s.saveBrand c brand).Threaded :=
    (h.of_sameSeats (s.sameSeats_updateContext c ⟨rfl, rfl, rfl, rfl⟩)).threaded
  have hsender' := h.threaded.erase_loose (r := .senderItem c) (by simp [item, hsender])
  have hitem : (s.saveBrand c brand).item (.senderItem c) = {} := by
    simpa [saveBrand, item] using hsender
  have hpriority : (s.saveBrand c brand).ownerPriority (.senderItem c) =
      (s.context c).priority := by simp [saveBrand, ownerPriority]
  have hlink := hthreaded.link (r := .senderItem c) (by simp [hitem]) (.senders g)
    (s.context c).priority
  have herase : ∀ (q : List ItemRef) (on : Prop) [Decidable on],
      (q ++ if on then [ItemRef.senderItem c] else []).erase (.ctxItem c) =
        q.erase (.ctxItem c) ++ if on then [ItemRef.senderItem c] else [] := by
    intro q on _
    rw [List.erase_append]
    split_ifs <;> simp_all [List.erase_of_not_mem]
  have hmove : ((((s.saveBrand c brand).link (.senders g) (s.context c).priority
      (.senderItem c)).unlink (.ctxItem c)).updateContext c fun b =>
        { b with state := .sending }).pend =
      ((s.saveBrand c brand).reseat c (.sending g)).pend := by
    rw [unlink_eq hlink, link_eq]
    simp [KState.saveBrand, setItem, updateContext, reseat, pend, Seat.state, Seat.ctxList,
      Seat.senderList, herase, List.erase_comm (ItemRef.ctxItem c) (ItemRef.senderItem c),
      hsender']
  have hlist := wp_listInsert (l := .senders g) (Q := fun _ t =>
    wp (do
      itemUnlink (.ctxItem c)
      modify (·.updateContext c fun b => { b with state := .sending })
      pendSwitch) Q E t) (E := E) hitem (hpriority ▸ h.contextPriority c)
  rw [hpriority] at hlist
  have hown : decide (c = s.current) = true := by simpa using hcurrent
  simp only [Context.blockInSend, wp_bind, wp_get, wp_set, panicUnless, hown, if_true,
    wp_pure, hblock]
  rw [← hmove]
  exact hlist

/-- What `invalidation_hook` does to a Context's lists and state. -/
theorem stop_eq_reseat (h : s.WellFormed) (c : TableIndex) :
    (((s.unlink (.ctxItem c)).unlink (.senderItem c)).updateContext c fun b =>
      { b with state := .stopped }) = s.reseat c .stopped := by
  rw [unlink_eq (h.threaded.unlink _), unlink_eq h.threaded]
  simp [setItem, updateContext, reseat, Seat.state, Seat.ctxList, Seat.senderList]

theorem wp_itemReinsert (h : s.Threaded) {l : ListId} {r : ItemRef}
    (hcontainer : (s.item r).container = some l) (hpriority : s.ownerPriority r < nPriorities) :
    wp (itemReinsert r) Q E s ↔ Q ⟨⟩ ((s.unlink r).link l (s.ownerPriority r) r) := by
  have hitem : (s.unlink r).item r = {} := by simp [item_unlink h]
  have hsame : (s.unlink r).ownerPriority r = s.ownerPriority r := by
    rw [unlink_eq h]
    cases r <;> simp [ownerPriority, setItem]
  simp only [itemReinsert, wp_bind, wp_get, hcontainer, itemUnlink, wp_modify,
    wp_listInsert hitem (hsame ▸ hpriority), hsame]

/-- A Context that is on no list is where its seat puts it. -/
theorem reseat_loose (h : s.Threaded) {seat : Seat} (hstate : (s.context c).state = seat.state)
    (hctx : (s.context c).ctxItem = {}) (hsender : (s.context c).senderItem = {})
    (hctxList : seat.ctxList = none) (hsenderList : seat.senderList = none) :
    s.reseat c seat = s := by
  have hctx' := h.erase_loose (r := .ctxItem c) (by simp [item, hctx])
  have hsender' := h.erase_loose (r := .senderItem c) (by simp [item, hsender])
  have hcontext : (s.reseat c seat).context = s.context := by
    funext x
    by_cases hx : x = c
    · subst hx
      apply Context.ext <;> simp [reseat, hctxList, hsenderList, hstate, hctx, hsender]
    · simp [reseat, hx]
  have hqueues : (s.reseat c seat).queues = s.queues := by
    simp [reseat, hctxList, hsenderList, hctx', hsender']
  apply KState.ext <;> first | exact hcontext | exact hqueues | rfl

/-- Reinserting `ctx_item` is staying in the same seat. -/
theorem relink_ctxItem (h : s.Threaded) {seat : Seat} {l : ListId}
    (hstate : (s.context c).state = seat.state) (hsender : (s.context c).senderItem = {})
    (hctxList : seat.ctxList = some l) (hsenderList : seat.senderList = none) :
    (s.unlink (.ctxItem c)).link l (s.context c).priority (.ctxItem c) = s.reseat c seat := by
  have hsender' := h.erase_loose (r := .senderItem c) (by simp [item, hsender])
  rw [link_eq, unlink_eq h]
  simp [setItem, updateContext, reseat, hctxList, hsenderList, ← hstate, hsender,
    List.erase_comm (ItemRef.ctxItem c) (ItemRef.senderItem c), hsender']

/-- Reinserting `sender_item` is staying in the same seat. -/
theorem relink_senderItem (h : s.Threaded) {seat : Seat} {l : ListId}
    (hstate : (s.context c).state = seat.state) (hctx : (s.context c).ctxItem = {})
    (hctxList : seat.ctxList = none) (hsenderList : seat.senderList = some l) :
    (s.unlink (.senderItem c)).link l (s.context c).priority (.senderItem c) =
      s.reseat c seat := by
  have hctx' := h.erase_loose (r := .ctxItem c) (by simp [item, hctx])
  rw [link_eq, unlink_eq h]
  simp [setItem, updateContext, reseat, hctxList, hsenderList, ← hstate, hctx, hctx']

/-- Giving a Context a new priority moves it to the end of the right sublist of its list. -/
theorem wp_changePriority (h : s.WellFormed) {seat : Seat} (hc : s.Sits c seat) {p : Priority}
    (hp : p < nPriorities) :
    wp (Context.changePriority c p) Q E s ↔
      Q ⟨⟩ ((s.updateContext c fun b => { b with priority := p }).reseat c seat) := by
  have hthreaded : (s.updateContext c fun b => { b with priority := p }).Threaded := by
    refine h.threaded.congr (funext fun r => ?_) rfl
    cases r with
    | ctxItem x | senderItem x => by_cases hx : x = c <;> simp_all [item]
    | irqItem i => rfl
  have hctx := hc.body.ctxItem
  have hsender := hc.body.senderItem
  have hstate := hc.body.state
  simp only [Context.changePriority, wp_bind, wp_modify, wp_get, wp_ite]
  generalize ht : (s.updateContext c fun b => { b with priority := p }) = t at hthreaded ⊢
  have hpriority : (t.context c).priority = p := by simp [← ht]
  replace hctx : (t.context c).ctxItem = Item.on seat.ctxList (s.context c).priority := by
    simpa [← ht] using hctx
  replace hsender : (t.context c).senderItem = Item.on seat.senderList (s.context c).priority := by
    simpa [← ht] using hsender
  replace hstate : (t.context c).state = seat.state := by simpa [← ht] using hstate
  have hsame : (t.reseat c seat).item (.senderItem c) = Item.on seat.senderList p := by
    simp [item_reseat, hpriority]
  cases hctxList : seat.ctxList with
  | some l =>
    have hsenderList : seat.senderList = none := by
      cases seat <;> simp_all [Seat.ctxList, Seat.senderList]
    have hcontainer : (t.item (.ctxItem c)).container = some l := by
      simp [item, hctx, hctxList]
    rw [hsenderList, Item.on_none] at hsender hsame
    rw [wp_itemReinsert hthreaded hcontainer (by simpa [ownerPriority, hpriority] using hp)]
    simp only [ownerPriority, relink_ctxItem hthreaded hstate hsender hctxList hsenderList]
    simp [hcontainer, hsame]
  | none =>
    rw [hctxList, Item.on_none] at hctx
    have hloose : (t.item (.ctxItem c)).container = none := by simp [item, hctx]
    cases hsenderList : seat.senderList with
    | some l =>
      have hcontainer : (t.item (.senderItem c)).container = some l := by
        simp [item, hsender, hsenderList]
      rw [wp_itemReinsert hthreaded hcontainer (by simpa [ownerPriority, hpriority] using hp)]
      simp only [ownerPriority, relink_senderItem hthreaded hstate hctx hctxList hsenderList]
      simp [hcontainer, hloose]
    | none =>
      rw [hsenderList, Item.on_none] at hsender
      have hloose' : (t.item (.senderItem c)).container = none := by simp [item, hsender]
      simp [hloose, hloose', reseat_loose hthreaded hstate hctx hsender hctxList hsenderList]

end Moves

/-! ## Moves of an Interrupt -/

section InterruptMoves

variable {s : KState} {i g : TableIndex} {Q : PUnit → KState → Prop}
  {E : Panic → KState → Prop}

open KState

theorem unlink_irqItem (h : s.WellFormed) (i : TableIndex) :
    s.unlink (.irqItem i) = s.requeue i none := by
  rw [unlink_eq h.threaded]
  simp [setItem, updateInterrupt, requeue]

/-- The body of an Interrupt that starts to block in a send. -/
def KState.saveIrqBrand (s : KState) (i : TableIndex) (brand : Brand) : KState :=
  s.updateInterrupt i fun b => { b with savedBrand := brand }

theorem wp_insertIrqItem (h : s.WellFormed) (hi : s.Queued i none) {brand : Brand} :
    wp (listInsert (.senders g) (.irqItem i)) Q E (s.saveIrqBrand i brand) ↔
      Q ⟨⟩ ((s.saveIrqBrand i brand).requeue i (some (.senders g))) := by
  have hitem : (s.interrupt i).senderItem = {} := hi.item
  have hloose := h.threaded.erase_loose (r := .irqItem i) (by simp [item, hitem])
  rw [wp_listInsert (by simpa [item, KState.saveIrqBrand] using hitem)
    (by simpa [ownerPriority, KState.saveIrqBrand] using h.interruptPriority i), link_eq]
  simp [KState.saveIrqBrand, ownerPriority, setItem, updateInterrupt, requeue, hloose]

end InterruptMoves

theorem wp_listTake {s : KState} {l : ListId} {Q : Option ItemRef → KState → Prop}
    {E : Panic → KState → Prop} :
    wp (listTake l) Q E s ↔
      match s.peek l with
      | none => Q none s
      | some r => Q (some r) (s.unlink r) := by
  simp only [listTake, wp_bind, wp_get]
  cases s.peek l <;> simp [itemUnlink]

end BrittleKernel
