import BrittleKernel.GateRendezvous
import BrittleKernel.Methods

/-!
# Elections

Which Context runs.  Whatever makes another Context the head of the run queue asks for a
switch, with one exception: Set Priority changes the order and does not.
-/

namespace BrittleKernel

open Hoare KState

namespace KState

/-- The current Context is the one that the scheduler would choose. -/
def Elected (s : KState) : Prop := s.First .runnable (.ctxItem s.current)

variable {s s' : KState} {c e : TableIndex}

/-! ## The head of a list -/

theorem First.unique {l : ListId} {r r' : ItemRef} (h : s.First l r) (h' : s.First l r') : r = r' := by
  have hle : ∀ {r r' : ItemRef}, s.First l r → s.First l r' → s.ownerPriority r ≤ s.ownerPriority r' := by
    intro r r' h h'
    by_contra hlt
    have hhead := h'.1
    simp [h.2 _ (Nat.lt_of_not_le hlt)] at hhead
  have hsame : s.ownerPriority r = s.ownerPriority r' := Nat.le_antisymm (hle h h') (hle h' h)
  have hhead := h.1
  rw [hsame, h'.1] at hhead
  exact (Option.some.inj hhead).symm

/-- Whoever is first is what `peek` finds. -/
theorem WellFormed.peek_of_first (hs : s.WellFormed) {l : ListId} {r : ItemRef} (h : s.First l r) :
    s.peek l = some r := by
  cases hpeek : s.peek l with
  | none =>
    have hhead := h.1
    simp [hs.queue_eq_nil hpeek] at hhead
  | some r' => rw [(hs.first_of_peek hpeek).unique h]

/-- A runnable Context is on the run queue, in the sublist of its priority. -/
theorem WellFormed.mem_runnable_iff (hs : s.WellFormed) {p : Priority} :
    .ctxItem c ∈ s.queues .runnable p ↔ s.Sits c .runnable ∧ (s.context c).priority = p := by
  constructor
  · intro hc
    obtain ⟨x, hx, hsits⟩ := hs.mem_runnable hc
    obtain rfl : c = x := by injection hx
    have hring := (hs.threaded.mem_iff _ _ _).mp hc
    rw [item, hsits.body.ctxItem] at hring
    exact ⟨hsits, congrArg Prod.snd (Option.some.inj hring)⟩
  · rintro ⟨hc, rfl⟩
    rw [hs.threaded.mem_iff, item, hc.body.ctxItem]
    rfl

/-- The elected Context has the least priority of all that are runnable. -/
theorem Elected.least (h : s.Elected) (hs : s.WellFormed) (hc : s.Sits c .runnable) :
    (s.context s.current).priority ≤ (s.context c).priority := by
  by_contra hlt
  have hmem := hs.mem_runnable_iff.mpr ⟨hc, rfl⟩
  rw [h.2 _ (Nat.lt_of_not_le hlt)] at hmem
  simp at hmem

/-- It comes before all others of its priority. -/
theorem Elected.before (h : s.Elected) (hs : s.WellFormed) (hc : s.Sits c .runnable)
    (hpriority : (s.context c).priority = (s.context s.current).priority) (hne : c ≠ s.current) :
    [.ctxItem s.current, .ctxItem c].Sublist (s.queues .runnable (s.context s.current).priority) := by
  obtain ⟨rest, hqueue⟩ := List.head?_eq_some_iff.mp h.1
  have hmem := hs.mem_runnable_iff.mpr ⟨hc, hpriority⟩
  change s.queues .runnable (s.context s.current).priority = _ at hqueue
  rw [hqueue] at hmem ⊢
  refine List.Sublist.cons_cons _ (List.singleton_sublist.mpr ?_)
  rcases List.mem_cons.mp hmem with heq | hmem
  · exact absurd (by injection heq) hne
  · exact hmem

/-! ## Changes that ask for no switch -/

/-- Nobody moves, except from one queue of senders to another. -/
structure Calm (s s' : KState) : Prop where
  objects : s'.objects = s.objects
  queues : ∀ l, (∀ g, l ≠ .senders g) → s'.queues l = s.queues l
  sits : ∀ c seat, s.Sits c seat → s'.Sits c seat
  priority : ∀ c, (s'.context c).priority = (s.context c).priority
  expected : ∀ c, (s'.context c).expectedReplyBrand = (s.context c).expectedReplyBrand

namespace Calm

theorem refl (s : KState) : Calm s s := ⟨rfl, fun _ _ => rfl, fun _ _ h => h, fun _ => rfl, fun _ => rfl⟩

theorem trans {s'' : KState} (h : Calm s s') (h' : Calm s' s'') : Calm s s'' where
  objects := h'.objects.trans h.objects
  queues l hl := (h'.queues l hl).trans (h.queues l hl)
  sits c seat hc := h'.sits c seat (h.sits c seat hc)
  priority c := (h'.priority c).trans (h.priority c)
  expected c := (h'.expected c).trans (h.expected c)

theorem of_sameSeats (h : SameSeats s s') (hobjects : s'.objects = s.objects)
    (hexpected : ∀ c, (s'.context c).expectedReplyBrand = (s.context c).expectedReplyBrand) :
    Calm s s' :=
  ⟨hobjects, fun _ _ => congrFun h.queues _, fun _ _ => h.sits, fun c => (h.context c).priority,
    hexpected⟩

theorem sits_iff (h : Calm s s') (hs : s.WellFormed) {seat : Seat} :
    s'.Sits c seat ↔ s.Sits c seat := by
  refine ⟨fun hc => ?_, h.sits c seat⟩
  obtain ⟨seat', hseat'⟩ := hs.context c
  obtain rfl := hc.unique (h.sits c seat' hseat')
  exact hseat'

theorem elected (h : Calm s s') (helected : s.Elected) : s'.Elected := by
  have hcurrent := current_of_objects h.objects
  have hqueues := h.queues .runnable (by simp)
  have hpriority : s'.ownerPriority (.ctxItem s'.current) = s.ownerPriority (.ctxItem s.current) := by
    rw [hcurrent]
    exact h.priority _
  rw [Elected, First, hpriority, hqueues, hcurrent]
  exact helected

end Calm

end KState

section

variable {A : Authority} {s s' : KState} {sender : Sender} {c : TableIndex}

/-- Interrupts stand in queues of senders only. -/
theorem queues_requeue (hs : s.WellFormed) {i : TableIndex} {q : Option TableIndex}
    (hi : s.Queued i q) (q' : Option TableIndex) {l : ListId} (hl : ∀ g, l ≠ .senders g) :
    (s.requeue i (q'.map .senders)).queues l = s.queues l := by
  have hnew : q'.map ListId.senders ≠ some l := by
    intro hmap
    obtain ⟨g, -, rfl⟩ := Option.map_eq_some_iff.mp hmap
    exact hl g rfl
  have hold : ∀ p, ItemRef.irqItem i ∉ s.queues l p := by
    intro p
    rw [hs.threaded.mem_iff, item, hi.item]
    cases q with
    | none => simp
    | some g => simpa using fun h => absurd h.symm (hl g)
  funext p
  simp only [requeue, List.erase_of_not_mem (hold p), hnew, false_and, if_false, List.append_nil]

/-- An act that leaves no switch pending changes nothing that the scheduler looks at. -/
theorem Act.calm (h : Act A s s') (hs : s.WellFormed) (hpending : s'.switchPending = false) :
    Calm s s' := by
  have hsits := (h.sameSeats hpending).2
  cases h with
  | save c f =>
    refine ⟨by simp, fun _ _ => rfl, hsits, fun x => ?_, fun x => ?_⟩
    · by_cases hx : x = c <;> simp [hx]
    · by_cases hx : x = c <;> simp [hx]
  | drop loc =>
    refine .of_sameSeats (s.sameSeats_setKeyAt loc _) (objects_setKeyAt _ _ _) fun x => ?_
    cases loc with
    | target i => rfl
    | keyReg c i | regionReg c i => by_cases hx : x = c <;> simp [setKeyAt, hx]
  | note ev => exact ⟨rfl, fun _ _ => rfl, hsits, fun _ => rfl, fun _ => rfl⟩
  | deposit dst ks =>
    refine .of_sameSeats (s.sameSeats_deposit dst ks) (objects_deposit _ _ _) fun x => ?_
    cases dst with
    | frame => rfl
    | bank c map => by_cases hx : x = c <;> simp [KState.deposit, hx]
  | takeIrq i g _ _ hi =>
    exact ⟨rfl, fun l hl => queues_requeue hs hi none hl, hsits, fun _ => rfl, fun _ => rfl⟩
  | blockIrq i g brand _ _ hi =>
    have hsame : SameSeats s (s.saveIrqBrand i brand) := s.sameSeats_updateInterrupt i ⟨rfl, rfl⟩
    exact ⟨rfl, fun l hl => queues_requeue (hs.of_sameSeats hsame) (hsame.queued hi) (some g) hl,
      hsits, fun _ => rfl, fun _ => rfl⟩
  | _ => simp [pend] at hpending

theorem Acts.calm (h : Acts A s s') (hs : s.WellFormed) (hpending : s'.switchPending = false) :
    s.switchPending = false ∧ Calm s s' := by
  induction h with
  | refl => exact ⟨hpending, .refl s⟩
  | tail hacts hact ih =>
    obtain ⟨hpending₁, hcalm⟩ := ih (hact.sameSeats hpending).1
    exact ⟨hpending₁, hcalm.trans (hact.calm (Acts.wellFormed hacts hs) hpending)⟩

/-! ## Receive phases and replies that switch -/

theorem switchPending_receiving (s : KState) (c : TableIndex) :
    (s.receiving c).switchPending = s.switchPending := by
  unfold KState.receiving dropped
  split
  · rfl
  · split
    · rfl
    · rfl

/-- No chain of deliveries takes back a pending switch. -/
theorem Receives.switchPending {k : Key} (h : Receives s c k s') (hpending : s.switchPending = true) :
    s'.switchPending = true := by
  induction h with
  | refused | irq => exact hpending
  | awaiting | waiting => rfl
  | @sender s s' c x k _ _ _ hidle ih =>
    cases hreceive : (s.context x).save.message.desc.getReceiveEnabled with
    | true => exact ih hreceive ((switchPending_receiving _ _).trans rfl)
    | false => exact hidle hreceive ▸ rfl

namespace KState

/-- Once the Context's message is taken, its receive phase blocks it or wakes a sender. -/
def ReceiveSwitches (s : KState) (c : TableIndex) : Prop :=
  (s.context c).save.message.desc.getReceiveEnabled = true ∧
    ((s.receiving c).ownReply c (s.receiveKey c) ∨
      (s.receiving c).opens (s.receiveKey c) ∧
        ∀ i, (s.receiving c).peek (.senders ((s.receiving c).target (s.receiveKey c))) ≠
          some (.irqItem i))

/-- A reply sent through the key wakes a Context. -/
def ReplySwitches (s : KState) (k : Key) : Prop :=
  (s.resolve k).brand.isTop = true ∧
    (s.kind (s.target k) = .gate ∧ (∃ y, s.Sits y (.receiving (s.target k))) ∨
      s.Sits (s.target k) .awaiting ∧
        (s.resolve k).brand = (s.context (s.target k)).expectedReplyBrand)

end KState

theorem TakenIn.switchPending (h : TakenIn s (.context c) .frame s')
    (hswitches : s.ReceiveSwitches c) : s'.switchPending = true := by
  obtain ⟨hreceive, hcase⟩ := hswitches
  have hrun : Receives (s.receiving c) c (s.receiveKey c) s' := h.1 hreceive
  generalize s.receiving c = t at hrun hcase
  generalize s.receiveKey c = k at hrun hcase
  cases hrun with
  | refused hopens hown =>
    rcases hcase with h | ⟨h, -⟩
    · exact absurd h hown
    · exact absurd h hopens
  | awaiting | waiting => rfl
  | irq hopens hpeek =>
    rcases hcase with ⟨rfl, hkind, -⟩ | ⟨-, hother⟩
    · simp [hopens.1] at hkind
    · exact absurd hpeek (hother _)
  | @sender _ _ _ x _ _ _ hreceive hidle =>
    -- The sender that is taken is woken, whatever its own receive phase does.
    cases henabled : (t.context x).save.message.desc.getReceiveEnabled with
    | true => exact (hreceive henabled).switchPending ((switchPending_receiving _ _).trans rfl)
    | false => exact hidle henabled ▸ rfl

theorem Replied.switchPending {k : Key} {rs : ReplySender} (h : Replied s k rs s') (hs : s.WellFormed)
    (hswitches : s.ReplySwitches k) : s'.switchPending = true := by
  obtain ⟨htop, hcase⟩ := hswitches
  cases h with
  | elided hnull =>
    exfalso
    rcases hcase with ⟨hkind, -⟩ | ⟨hsits, -⟩
    · simp [hnull] at hkind
    · simp [hsits.kind (by simp)] at hnull
  | passed h =>
    cases h with
    | queued hkind _ hpeek =>
      exfalso
      rcases hcase with ⟨-, y, hy⟩ | ⟨hsits, -⟩
      · exact hs.not_receiving hpeek hy
      · simp [hsits.kind (by simp)] at hkind
    | woken _ _ _ htaken => exact htaken ▸ rfl
    | answered _ _ _ _ htaken => exact htaken ▸ rfl
  | misunderstood hserved =>
    exfalso
    rcases hcase with ⟨hkind, -⟩ | ⟨hsits, hexpected⟩
    · simp [served, hkind, htop] at hserved
    · rw [hexpected] at htop
      simp [served, hsits.kind (by simp), htop, hexpected] at hserved

/-! ## Methods -/

namespace KState

/-- Set Priority takes another Context to the head of the run queue: it moves a Context
before the current one, or the current one behind another. -/
def Overtakes (s : KState) (e : TableIndex) (n : Priority) : Prop :=
  s.Sits e .runnable ∧
    (e ≠ s.current ∧ n < (s.context s.current).priority ∨
      e = s.current ∧ ∃ c, c ≠ e ∧ s.Sits c .runnable ∧ (s.context c).priority ≤ n)

theorem Calm.overtakes_iff (h : Calm s s') (hs : s.WellFormed) {e : TableIndex} {n : Priority} :
    s'.Overtakes e n ↔ s.Overtakes e n := by
  simp only [Overtakes, h.sits_iff hs, current_of_objects h.objects, h.priority]

theorem elected_of_queues {p : Priority} (hpriority : (s.context s.current).priority = p)
    (hhead : (s.queues .runnable p).head? = some (.ctxItem s.current))
    (hless : ∀ q < p, s.queues .runnable q = []) : s.Elected := by
  subst hpriority
  exact ⟨hhead, hless⟩

/-- Taking somebody else off the run queue leaves the current Context at its head. -/
theorem Elected.of_leave {s s' : KState} (h : s.Elected) (hcurrent : s'.current = s.current)
    (hpriority : (s'.context s.current).priority = (s.context s.current).priority)
    {r : ItemRef} (hr : r ≠ .ctxItem s.current)
    (hqueues : ∀ p, s'.queues .runnable p = (s.queues .runnable p).erase r) : s'.Elected := by
  refine elected_of_queues (p := (s.context s.current).priority) (by rw [hcurrent, hpriority]) ?_
    fun p hp => ?_
  · obtain ⟨rest, hqueue⟩ := List.head?_eq_some_iff.mp h.1
    change s.queues .runnable (s.context s.current).priority = _ at hqueue
    rw [hqueues, hqueue, List.erase_cons_tail (by simpa using hr.symm), hcurrent]
    rfl
  · rw [hqueues, h.2 p hp]
    rfl

/-- The run queue after Set Priority. -/
theorem queues_setPriority (hs : s.WellFormed) (e : TableIndex) (seat : Seat) (n p : Priority) :
    ((s.updateContext e fun b => { b with priority := n }).reseat e seat).queues .runnable p =
      (s.queues .runnable p).erase (.ctxItem e) ++
        if seat = .runnable ∧ p = n then [.ctxItem e] else [] := by
  have hsender : ItemRef.senderItem e ∉ (s.queues .runnable p).erase (.ctxItem e) := by
    intro hmem
    obtain ⟨c, hc, -⟩ := hs.mem_runnable (List.mem_of_mem_erase hmem)
    cases hc
  simp only [reseat, updateContext, Function.update_self, List.erase_of_not_mem hsender]
  cases seat <;> simp [Seat.ctxList, Seat.senderList]

/-- Set Priority leaves the current Context at the head unless it moves another one there. -/
theorem Elected.setPriority (h : s.Elected) (hs : s.WellFormed) (hcurrent : s.Sits s.current .runnable)
    {e : TableIndex} {seat : Seat} (he : s.Sits e seat) {n : Priority} (hsafe : ¬s.Overtakes e n) :
    ((s.updateContext e fun b => { b with priority := n }).reseat e seat).Elected := by
  have hqueue := s.queues_setPriority hs e seat n
  have hpriority : (((s.updateContext e fun b => { b with priority := n }).reseat e seat).context
      s.current).priority = if s.current = e then n else (s.context s.current).priority := by
    split
    next he => simp [reseat, he]
    next he => simp [reseat, he]
  by_cases hself : s.current = e
  · -- The current Context goes behind the others of priority `n`, of which there are none.
    subst hself
    obtain rfl := he.unique hcurrent
    have hgone : ∀ p ≤ n, (s.queues .runnable p).erase (.ctxItem s.current) = [] := by
      intro p hp
      apply List.eq_nil_iff_forall_not_mem.mpr
      intro r hr
      obtain ⟨hne, hmem⟩ := (hs.threaded.nodup (.runnable, p)).mem_erase_iff.mp hr
      obtain ⟨c, rfl, hc⟩ := hs.mem_runnable hmem
      refine hsafe ⟨hcurrent, .inr ⟨rfl, c, fun heq => hne (heq ▸ rfl), hc, ?_⟩⟩
      exact (hs.mem_runnable_iff.mp hmem).2 ▸ hp
    rw [if_pos rfl] at hpriority
    refine elected_of_queues hpriority ?_ fun p hp => ?_
    · rw [hqueue, hgone n le_rfl, if_pos ⟨rfl, rfl⟩]
      rfl
    · rw [hqueue, hgone p hp.le]
      simp [hp.ne]
  · -- Another one does not come before the current Context.
    rw [if_neg hself] at hpriority
    have hbehind : s.Sits e .runnable → (s.context s.current).priority ≤ n := fun hsits =>
      Nat.le_of_not_lt fun hlt => hsafe ⟨hsits, .inl ⟨Ne.symm hself, hlt⟩⟩
    refine elected_of_queues hpriority ?_ fun p hp => ?_
    · obtain ⟨rest, hhead⟩ := List.head?_eq_some_iff.mp h.1
      change s.queues .runnable (s.context s.current).priority = _ at hhead
      rw [hqueue, hhead, List.erase_cons_tail (by simpa using hself)]
      rfl
    · rw [hqueue, h.2 p hp, if_neg]
      · rfl
      · rintro ⟨rfl, rfl⟩
        exact absurd hp (Nat.not_lt.mpr (hbehind he))

end KState

/-- What the scheduler looks at is unchanged. -/
theorem KState.Elected.of_queues (h : s.Elected) (hcurrent : s'.current = s.current)
    (hpriority : (s'.context s.current).priority = (s.context s.current).priority)
    (hqueues : s'.queues .runnable = s.queues .runnable) : s'.Elected :=
  elected_of_queues (p := (s.context s.current).priority) (by rw [hcurrent, hpriority])
    (by rw [hqueues, hcurrent]; exact h.1) fun p hp => by rw [hqueues]; exact h.2 p hp

theorem KState.Elected.of_sameSeats (h : s.Elected) (hsame : SameSeats s s')
    (hcurrent : s'.current = s.current) : s'.Elected :=
  h.of_queues hcurrent (hsame.context _).priority (congrFun hsame.queues _)

/-- Invalidate on another object leaves the current Context at the head. -/
theorem KState.Elected.invalidated {n : TableIndex} (h : s.Elected) (hs : s.WellFormed)
    (hpending : (s.invalidated n).switchPending = false) : (s.invalidated n).Elected := by
  have hother : s.kind n = .context → n ≠ s.current := by
    rintro hkind rfl
    simp only [KState.invalidated, switchPending_bump, invalidationHook, hkind, if_true] at hpending
    cases (show true = false from hpending)
  simp only [KState.invalidated, invalidationHook]
  split
  · exact h.of_sameSeats ((sameSeats_loadMpu _ _).trans (sameSeats_bump _ _)) rfl
  next hkind =>
    have hne := hother hkind
    rw [if_neg hne]
    refine h.of_leave (r := .ctxItem n) rfl ?_ (by simpa using hne) fun p => ?_
    · simp [advanceReply, reseat, Ne.symm hne]
    · have hsender : ItemRef.senderItem n ∉ (s.queues .runnable p).erase (.ctxItem n) := by
        intro hmem
        obtain ⟨c, hc, -⟩ := hs.mem_runnable (List.mem_of_mem_erase hmem)
        cases hc
      simp [advanceReply, reseat, Seat.ctxList, Seat.senderList, List.erase_of_not_mem hsender]
  · obtain ⟨q, hq⟩ := hs.interrupt n
    exact h.of_queues rfl rfl (queues_requeue (s := { s with irqEnabled := _ })
      (hs.of_sameSeats ⟨rfl, rfl, rfl, fun _ => .refl _, fun _ => .refl _⟩) ⟨hq.item, hq.kind, hq.gate⟩
      none (by simp))
  · exact h.of_queues rfl rfl rfl

variable {cfg : Config} {e : TableIndex} {brand : Brand} {m : Message} {k : Keys} {rs : ReplySender}

/-- A method that leaves no switch pending leaves the current Context at the head, unless it
is a Set Priority that moves another one there. -/
theorem Effect.elected (h : Effect cfg e brand m k s rs s') (hs : s.WellFormed)
    (hcurrent : s.Sits s.current .runnable) (helected : s.Elected)
    (hpending : s'.switchPending = false)
    (hsafe : s.kind e = .context → ContextMethod.ofSelector m.desc.getSelector = some .setPriority →
      m.d0.toNat < nPriorities → ¬s.Overtakes e m.d0.toNat) : s'.Elected := by
  have hstill := h.current_eq
  cases h with
  | callOff | callOffReply | start => cases (show true = false from hpending)
  | setPriority seat he hm hseat hn => exact helected.setPriority hs hcurrent hseat (hsafe he hm hn)
  | invalidate he hm =>
    have hsame := sameSeats_record s (.invalidateRequested m.d0 (m.d1 != 0#32))
    exact (helected.of_sameSeats hsame rfl).invalidated (hs.of_sameSeats hsame) hpending
  | writeKey r => exact helected.of_sameSeats (s.sameSeats_setKeyAt _ _) hstill
  | setTarget => exact helected.of_sameSeats (s.sameSeats_setKeyAt _ _) hstill
  | writeSave => exact helected.of_sameSeats (s.sameSeats_updateContext e ⟨rfl, rfl, rfl, rfl⟩) rfl
  | writeRegion r =>
    have hwrite := s.sameSeats_setKeyAt (.regionReg e r) (k 1)
    refine helected.of_sameSeats ?_ hstill
    split
    · exact hwrite.trans (sameSeats_loadMpu _ _)
    · exact hwrite
  | split slot =>
    refine helected.of_queues hstill ?_ (by simp [splitMemory])
    refine ((sameSeats_loadMpu _ _).context s.current).priority.trans ?_
    simp
  | makeChild slot =>
    exact helected.of_queues hstill (by simp [makeChildMemory]) (by simp [makeChildMemory])
  | become t hok =>
    have hne : s.current ≠ e := by
      rintro rfl
      exact absurd hok.memory (by simp [hcurrent.kind_of_runnable])
    refine helected.of_queues hstill ?_ ?_
    · refine ((sameSeats_loadMpu _ _).context s.current).priority.trans ?_
      cases t <;> simp [buildObject, hne]
    · cases t <;> simp [becomeObject, buildObject]
  | _ => exact helected

/-! ## Deliveries -/

/-- A message is a Set Priority that takes another Context to the head of the run queue, and
nothing else that comes of the message asks for a switch: the sender's receive phase does not,
nor does the reply. -/
structure KState.SlipsThrough (s : KState) (sender : Sender) (e : TableIndex) (b : Brand) : Prop where
  served : s.served e b = some .context
  method : ContextMethod.ofSelector (s.outgoing sender).1.desc.getSelector = some .setPriority
  inRange : (s.outgoing sender).1.d0.toNat < nPriorities
  overtakes : s.Overtakes e (s.outgoing sender).1.d0.toNat
  receives : ∀ c, sender = .context c → ¬s.ReceiveSwitches c
  replies : ¬s.ReplySwitches ((s.outgoing sender).2 0)

theorem KState.ReplySwitches.congr {key : Key} (hobjects : s'.objects = s.objects)
    (hsits : ∀ c seat, s'.Sits c seat ↔ s.Sits c seat)
    (hexpected : ∀ c, (s'.context c).expectedReplyBrand = (s.context c).expectedReplyBrand) :
    s'.ReplySwitches key ↔ s.ReplySwitches key := by
  simp only [ReplySwitches, resolve_of_objects hobjects, target_of_objects hobjects,
    kind_of_objects hobjects, hsits, hexpected]

/-- A request for Set Priority does nothing else. -/
theorem Effect.of_setPriority (h : Effect cfg e brand m k s rs s') (he : s.kind e = .context)
    (hm : ContextMethod.ofSelector m.desc.getSelector = some .setPriority) :
    s' = s ∨ ∃ seat, s.Sits e seat ∧
      s' = (s.updateContext e fun b => { b with priority := m.d0.toNat }).reseat e seat := by
  cases h with
  | setPriority seat _ _ hseat => exact .inr ⟨seat, hseat, rfl⟩
  | writeSave _ _ _ hm' hmethod =>
    rw [hm, Option.some.injEq] at hm'
    simp [← hm'] at hmethod
  | split _ hok => simp [hok.memory] at he
  | makeChild _ hok => simp [hok.memory] at he
  | become _ hok => simp [hok.memory] at he
  | _ => simp_all

/-- Set Priority does not change whether a reply wakes a Context. -/
theorem Effect.replySwitches_iff (h : Effect cfg e brand m k s rs s') (hs : s.WellFormed)
    (he : s.kind e = .context)
    (hm : ContextMethod.ofSelector m.desc.getSelector = some .setPriority) {key : Key} :
    s'.ReplySwitches key ↔ s.ReplySwitches key := by
  have hforward : ∀ c seat, s.Sits c seat → s'.Sits c seat := by
    intro c seat hc
    rcases h.sits_cases hc with hsits | ⟨-, hother, -⟩ | ⟨-, -, hkind, -⟩
    · exact hsits
    · simp [hm] at hother
    · simp [hkind] at he
  have hsits : ∀ c seat, s'.Sits c seat ↔ s.Sits c seat := by
    refine fun c seat => ⟨fun hc => ?_, hforward c seat⟩
    obtain ⟨seat', hseat'⟩ := hs.context c
    obtain rfl := hc.unique (hforward c seat' hseat')
    exact hseat'
  rcases h.of_setPriority he hm with rfl | ⟨seat, -, rfl⟩
  · rfl
  · refine ReplySwitches.congr (by simp) hsits fun c => ?_
    by_cases hc : c = e <;> simp [reseat, hc]

theorem KState.calm_looked (s : KState) (kind : Kind) (e : TableIndex) (b : Brand) :
    Calm s (s.looked kind e b) := by
  rcases s.looked_cases kind e b with h | h
  · rw [h]
    exact .refl s
  · rw [h]
    exact .of_sameSeats (sameSeats_record _ _) rfl fun _ => rfl

theorem KState.switchPending_looked (s : KState) (kind : Kind) (e : TableIndex) (b : Brand) :
    (s.looked kind e b).switchPending = s.switchPending := by
  rcases s.looked_cases kind e b with h | h
  · rw [h]
  · rw [h]
    rfl

theorem Delivered.elected {ref : BrandRef} (h : Delivered cfg s sender e ref s') (hs : s.WellFormed)
    (hready : sender.Free s) (hcurrent : s.Sits s.current .runnable) (helected : s.Elected)
    (hsafe : ¬s.SlipsThrough sender e (s.readRef ref)) (hpending : s'.switchPending = false) :
    s'.Elected := by
  cases h with
  | passed h => exact (Acts.calm (h.acts hs hready) hs hpending).2.elected helected
  | @served kind s₁ s₂ _ rs hserved htaken heffect hrefused hreplied =>
    have hs₁ := Acts.wellFormed (htaken.acts hs hready) hs
    have hcalm := s₁.calm_looked kind e (s₁.readRef ref)
    have hl := hs₁.of_sameSeats (sameSeats_looked s₁ kind e (s₁.readRef ref))
    have hs₂ := heffect.wellFormed hl
    -- No switch is asked for before the method, in it or after it.
    obtain ⟨hpending₂, hcalm₂⟩ := Acts.calm (hreplied.acts hs₂) hs₂ hpending
    have hpending₁ : s₁.switchPending = false :=
      (switchPending_looked _ _ _ _).symm.trans (heffect.switchPending hpending₂)
    have hbefore := (Acts.calm (htaken.acts hs hready) hs hpending₁).2.trans hcalm
    have hrunning := hbefore.sits _ _ hcurrent
    rw [← current_of_objects hbefore.objects] at hrunning
    rcases eq_or_ne kind .null with rfl | hserves
    · -- A refusal changes nothing.
      obtain ⟨rfl, -⟩ := hrefused rfl
      exact hcalm₂.elected ((Acts.calm (htaken.acts hs hready) hs hpending₁).2.elected helected)
    refine hcalm₂.elected (heffect.elected hl hrunning (hbefore.elected helected) hpending₂
      fun he hm hn hover => hsafe ⟨?_, hm, hn, (hbefore.overtakes_iff hs).mp hover, ?_, ?_⟩)
    · rw [kind_of_objects hbefore.objects] at he
      rw [hserved, (served_kind hserved).resolve_left hserves, he]
    · rintro c rfl hswitches
      simp [htaken.switchPending hswitches] at hpending₁
    · intro hswitches
      have hafter := (heffect.replySwitches_iff hl he hm).mpr ((ReplySwitches.congr hbefore.objects
        (fun c seat => hbefore.sits_iff hs) hbefore.expected).mpr hswitches)
      simp [hreplied.switchPending hs₂ hafter] at hpending

/-! ## Steps -/

/-- In this step a Set Priority slips through. -/
def KState.Overlooks (s : KState) : Action → Prop
  | .svc stack regs => (⟨regs 0⟩ : Descriptor).getSysnum = 0 ∧
      (⟨regs 0⟩ : Descriptor).getSendEnabled = true ∧
      (s.svcSending stack regs).SlipsThrough (.context s.current) (s.invoked regs)
        (s.resolve (s.keyAt (s.targetReg regs))).brand
  | _ => False

/-- An Interrupt's message is no Set Priority. -/
theorem KState.not_slipsThrough_interrupt {i : TableIndex} {b : Brand} :
    ¬s.SlipsThrough (.interrupt i) e b := by
  intro h
  have hmethod : ContextMethod.ofSelector 1#16 = some .setPriority := h.method
  exact absurd hmethod (by decide)

/-- Between two steps, with no PendSV pended, the current Context is the one that the
scheduler would choose. -/
def KState.Law (s : KState) : Prop := s.pendSv = false → s.Elected

theorem KState.elected_switchTo (hs : s.WellFormed) (hpeek : s.peek .runnable = some (.ctxItem c)) :
    (s.switchTo c).Elected := by
  have hfirst := hs.first_of_peek hpeek
  exact elected_of_queues ((sameSeats_switchTo s c).context c).priority hfirst.1 hfirst.2

theorem Switches.elected (h : Switches s s') (hs : s.WellFormed)
    (helected : s.switchPending = false → s.Elected) : s'.Elected := by
  cases h with
  | stays hpending => exact helected hpending
  | elects c _ hpeek =>
    exact elected_switchTo (hs.of_sameSeats ⟨rfl, rfl, rfl, fun _ => .refl _, fun _ => .refl _⟩) hpeek

/-- No method pends or takes a PendSV. -/
theorem Effect.pendSv_eq (h : Effect cfg e brand m k s rs s') : s'.pendSv = s.pendSv := by
  cases h with
  | writeKey | setTarget => exact pendSv_of_objects (objects_setKeyAt _ _ _)
  | writeRegion r =>
    split
    · exact (show _ = (s.setKeyAt (.regionReg e r) (k 1)).pendSv from rfl).trans
        (pendSv_of_objects (objects_setKeyAt _ _ _))
    · exact pendSv_of_objects (objects_setKeyAt _ _ _)
  | split | makeChild => simp [splitMemory, makeChildMemory]
  | become t => cases t <;> rfl
  | invalidate =>
    simp only [KState.invalidated, invalidationHook]
    split <;> (try split) <;> rfl
  | _ => rfl

theorem Delivered.pendSv_eq {ref : BrandRef} (h : Delivered cfg s sender e ref s') (hs : s.WellFormed)
    (hready : sender.Free s) : s'.pendSv = s.pendSv := by
  cases h with
  | passed h => exact pendSv_of_objects (Acts.objects (h.acts hs hready))
  | @served kind s₁ s₂ _ rs _ htaken heffect _ hreplied =>
    have hacts := htaken.acts hs hready
    have hl := (Acts.wellFormed hacts hs).of_sameSeats (sameSeats_looked s₁ kind e (s₁.readRef ref))
    calc s'.pendSv = s₂.pendSv :=
          pendSv_of_objects (Acts.objects (hreplied.acts (heffect.wellFormed hl)))
      _ = (s₁.looked kind e (s₁.readRef ref)).pendSv := heffect.pendSv_eq
      _ = s₁.pendSv := pendSv_of_objects (s₁.calm_looked _ _ _).objects
      _ = s.pendSv := pendSv_of_objects (Acts.objects hacts)

/-- The brand that an object finds with a system call's message. -/
theorem KState.readRef_svcSending {stack : Word} {regs : UserRegisters} :
    (s.svcSending stack regs).readRef ((s.svcSending stack regs).refTo cfg (s.targetReg regs)) =
      (s.resolve (s.keyAt (s.targetReg regs))).brand := by
  have hentered : (s.entered stack regs).keyAt = s.keyAt := keyAt_updateContext rfl rfl
  rw [readRef_refTo, svcSending, keyAt_sending, ready, resolve_keyAt_dropped, hentered,
    resolve_of_objects (objects_entered s stack regs)]

/-- What is left of a system call before its switch: the law holds, or a switch is asked for. -/
theorem SvcOutcome.elected {stack : Word} {regs : UserRegisters} (h : SvcOutcome cfg s stack regs s')
    (hs : s.Settled) (hsys : (⟨regs 0⟩ : Descriptor).getSysnum = 0) (helected : s.Elected)
    (hsafe : ¬s.Overlooks (.svc stack regs)) (hpending : s'.switchPending = false) : s'.Elected := by
  have hready := s.sameSeats_ready stack regs
  have hcurrent := current_of_objects (objects_ready s stack regs)
  have hbefore := helected.of_sameSeats hready hcurrent
  cases h with
  | idle => exact hbefore
  | received _ _ h =>
    have hsame := sameSeats_dropped (s.ready stack regs) (s.sourceReg regs)
    have hwf := hs.wellFormed.of_sameSeats (hready.trans hsame)
    have hacts := h.acts hwf ((hready.trans hsame).sits hs.running)
    exact (Acts.calm hacts hwf hpending).2.elected
      (hbefore.of_sameSeats hsame (current_of_objects (objects_dropped _ _)))
  | sent hsend h =>
    have hsame := hready.trans (sameSeats_sending _ s.current (s.targetReg regs))
    have hstill : (s.svcSending stack regs).current = s.current := current_of_objects objects_svcSending
    refine h.elected (hs.wellFormed_svcSending stack regs) (hs.free stack regs)
      (hstill.symm ▸ hsame.sits hs.running) (helected.of_sameSeats hsame hstill)
      (fun hslips => hsafe ⟨hsys, hsend, ?_⟩) hpending
    rwa [target_keyAt_ready, readRef_svcSending] at hslips

theorem SvcOutcome.pendSv_eq {stack : Word} {regs : UserRegisters}
    (h : SvcOutcome cfg s stack regs s') (hs : s.Settled) : s'.pendSv = s.pendSv := by
  have hready := pendSv_of_objects (objects_ready s stack regs)
  cases h with
  | idle => exact hready
  | received _ _ h =>
    have hsame := (s.sameSeats_ready stack regs).trans (sameSeats_dropped _ (s.sourceReg regs))
    have hacts := h.acts (hs.wellFormed.of_sameSeats hsame) (hsame.sits hs.running)
    exact (pendSv_of_objects ((Acts.objects hacts).trans (objects_dropped _ _))).trans hready
  | sent _ h =>
    exact (h.pendSv_eq (hs.wellFormed_svcSending stack regs) (hs.free stack regs)).trans
      (pendSv_of_objects objects_svcSending)

/-- A step in which no Set Priority slips through keeps the law. -/
theorem Stepped.law {a : Action} (h : Stepped cfg s a s') (hs : s.Settled) (hlaw : s.Law)
    (hsafe : ¬s.Overlooks a) : s'.Law := by
  intro hpended
  have hwf := hs.wellFormed
  cases h with
  | @ipc stack regs s₁ _ hsys houtcome hswitch =>
    have hpendSv : s'.pendSv = s.pendSv := by
      refine Eq.trans ?_ (houtcome.pendSv_eq hs)
      cases hswitch with
      | stays => rfl
      | elects => rfl
    exact hswitch.elected (houtcome.wellFormed hs) fun hpending =>
      houtcome.elected hs hsys (hlaw (hpendSv.symm.trans hpended)) hsafe hpending
  | @copyKey stack regs =>
    have hobjects := objects_setKeyAt s (s.targetReg regs) (s.keyAt (s.sourceReg regs))
    exact (hlaw ((pendSv_of_objects hobjects).symm.trans hpended)).of_sameSeats
      (sameSeats_setKeyAt _ _ _) (current_of_objects hobjects)
  | stillQueued => exact (hlaw hpended).of_sameSeats (sameSeats_masked _ _) rfl
  | @irq n i s₁ _ _ hi hidle hdelivered =>
    have hsame := (sameSeats_masked s i).trans (sameSeats_sending _ i (.target i))
    have hfree : (Sender.interrupt i).Free ((s.masked i).sending i (.target i)) :=
      ⟨trivial, (congrFun hsame.kind i).trans (hs.irqTable _ i hi), hsame.queued hidle⟩
    have hobjects := objects_sending (s.masked i) i (.target i)
    have hcurrent : ((s.masked i).sending i (.target i)).current = s.current :=
      (current_of_objects hobjects).trans rfl
    have hpendSv : ((s.masked i).sending i (.target i)).pendSv = s.pendSv :=
      (pendSv_of_objects hobjects).trans rfl
    have hstill := hdelivered.pendSv_eq (hwf.of_sameSeats hsame) hfree
    unfold deferToPendSv at hpended ⊢
    split at hpended
    · cases (show true = false from hpended)
    next hpending =>
      -- The message was delivered without a switch.
      rw [if_neg hpending]
      have hbefore := hlaw (hpendSv.symm.trans (hstill.symm.trans hpended))
      exact hdelivered.elected (hwf.of_sameSeats hsame) hfree
        (hcurrent.symm ▸ hsame.sits hs.running) (hbefore.of_sameSeats hsame hcurrent)
        not_slipsThrough_interrupt (by simpa using hpending)
  | pendSv _ hpeek =>
    exact elected_switchTo (hwf.of_sameSeats ((show SameSeats s ({ s with pendSv := false } : KState) from
      ⟨rfl, rfl, rfl, fun _ => .refl _, fun _ => .refl _⟩).trans (sameSeats_entered _ _ _))) hpeek
  | store => exact hlaw hpended
  | noCall | noIrq | noPendSv | noStore => exact hlaw hpended

/-- The first Context is alone on the run queue. -/
theorem Booted.elected {app : AppInfo} (h : Booted app s) : s.Elected := by
  have hwf := h.wellFormed
  cases hpeek : s.peek .runnable with
  | none =>
    have hmem := hwf.mem_runnable_iff.mpr ⟨h.runnable, rfl⟩
    simp [hwf.queue_eq_nil hpeek] at hmem
  | some r =>
    obtain ⟨p, hr⟩ := exists_mem_of_peek hpeek
    obtain ⟨c, rfl, hc⟩ := hwf.mem_runnable hr
    have hfirst := hwf.first_of_peek hpeek
    obtain rfl : c = 2 := by
      by_contra hne
      have hstate := hc.body.state
      simp [h.others c hne, Seat.state] at hstate
    rw [Elected, h.current]
    exact hfirst

theorem ReachableUnder.law (hcfg : cfg.eagerRevocation = false) {app : AppInfo}
    (h : ReachableUnder cfg app (fun s a => ¬s.Overlooks a) s) : s.Law := by
  induction h with
  | boot hboot => exact fun _ => hboot.booted.elected
  | step hrun hsafe hstep ih =>
    exact (hrun.reachable.stepped hcfg hstep).law (hrun.reachable.settled hcfg) ih hsafe

/-! ## The scheduler law -/

theorem Turns.append {t : KState} {joined joined' : ListId → Priority → ItemRef → Prop}
    (h : Turns cfg s joined t) (h' : Turns cfg t joined' s') : ∃ joined, Turns cfg s joined s' := by
  induction h' with
  | start => exact ⟨_, h⟩
  | move _ hmove ih =>
    obtain ⟨_, hrun⟩ := ih
    exact ⟨_, hrun.move hmove⟩

theorem Reachable.turns (hcfg : cfg.eagerRevocation = false) {app : AppInfo} {as : List Action}
    (h : Reachable cfg app s) (hrun : runActions cfg as s = .ok () s') :
    ∃ joined, Turns cfg s joined s' := by
  induction as generalizing s with
  | nil => exact runActions_nil.mp hrun ▸ ⟨_, .start⟩
  | cons a as ih =>
    obtain ⟨t, hstep, hrun⟩ := runActions_cons.mp hrun
    obtain ⟨_, hfirst⟩ := (h.stepped hcfg hstep).turns (h.settled hcfg)
    obtain ⟨_, hrest⟩ := ih (.step h hstep) hrun
    exact hfirst.append hrest

/-- The current Context is runnable, and of all that are, it has the least priority and has been
on the run queue for longest. -/
structure KState.HeadRuns (cfg : Config) (app : AppInfo) (s : KState) : Prop where
  runnable : s.Sits s.current .runnable
  head : s.peek .runnable = some (.ctxItem s.current)
  least : ∀ c, s.Sits c .runnable → (s.context s.current).priority ≤ (s.context c).priority
  turns : ∀ s₀ as, Reachable cfg app s₀ → runActions cfg as s₀ = .ok () s →
    ∃ joined, Turns cfg s₀ joined s
  /-- In whatever part of a run the current Context was inserted, so was every other one of its
  priority. -/
  earliest : ∀ s₀ joined, Reachable cfg app s₀ → Turns cfg s₀ joined s → ∀ c, s.Sits c .runnable →
    (s.context c).priority = (s.context s.current).priority → c ≠ s.current →
    joined .runnable (s.context s.current).priority (.ctxItem s.current) →
    joined .runnable (s.context s.current).priority (.ctxItem c)

/-- The message is a Set Priority if a Context serves it. -/
def Action.setsPriority : Action → Bool
  | .svc _ regs => ContextMethod.ofSelector (svcMessage regs).desc.getSelector == some .setPriority
  | _ => false

theorem KState.not_overlooks {a : Action} (h : a.setsPriority = false) : ¬s.Overlooks a := by
  cases a with
  | svc stack regs =>
    rintro ⟨-, -, hslips⟩
    have hmethod := hslips.method
    rw [outgoing_svcSending] at hmethod
    simp [Action.setsPriority, hmethod] at h
  | irq | pendSv | store => exact id

end

end BrittleKernel
