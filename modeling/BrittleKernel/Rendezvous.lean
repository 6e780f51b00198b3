import BrittleKernel.Waiting
import BrittleKernel.Requests

/-!
# Rendezvous at Gates

No Gate has both senders and receivers queued, every queued send ends once, and the head of
a Gate's list is served first.
-/

namespace BrittleKernel

open Hoare KState

/-! ## Methods and queued senders -/

section

variable {cfg : Config} {e : TableIndex} {brand : Brand} {m : Message} {k : Keys} {s s' : KState}
  {rs : ReplySender}

/-- What a method does to a queued Interrupt: it stays, or Invalidate takes it off its Gate. -/
theorem Effect.queued_cases (h : Effect cfg e brand m k s rs s') {i : TableIndex}
    {q : Option TableIndex} (hi : s.Queued i q) :
    s'.Queued i q ∨
      i = m.d0.toNat ∧ ObjectTableMethod.ofSelector m.desc.getSelector = some .invalidate ∧
        s.kind e = .objectTable ∧ s'.Queued i none := by
  have hkind : ∀ x, (s.kind x = .interrupt ∨ s.kind x = .gate) → s'.kind x = s.kind x := by
    intro x hx
    rcases h.kind_cases x with hsame | hm | hm
    · exact hsame
    · simp [hm] at hx
    · simp [hm] at hx
  have hstay : (s'.interrupt i).senderItem = Item.on (q.map .senders) (s'.interrupt i).priority →
      s'.Queued i q := fun hitem =>
    ⟨hitem, fun hne => (hkind i (.inl (hi.kind hne))).trans (hi.kind hne), fun g hg =>
      (hkind g (.inr (hi.gate g hg))).trans (hi.gate g hg)⟩
  cases h with
  | writeKey r => exact .inl ((s.sameSeats_setKeyAt (.keyReg e r) (k 1)).queued hi)
  | setTarget => exact .inl ((s.sameSeats_setKeyAt (.target e) (k 1)).queued hi)
  | writeRegion r =>
    have hwrite := (s.sameSeats_setKeyAt (.regionReg e r) (k 1)).queued hi
    left
    split
    · exact (sameSeats_loadMpu _ _).queued hwrite
    · exact hwrite
  | split slot => exact .inl (hstay (by simpa [splitMemory] using hi.item))
  | makeChild slot => exact .inl (hstay (by simpa [makeChildMemory] using hi.item))
  | become t hok =>
    refine .inl (hstay ?_)
    cases t with
    | context | gate => exact hi.item
    | interrupt =>
      -- The entry was Memory, which is queued nowhere.
      by_cases hie : i = e
      · subst hie
        obtain rfl : q = none := hi.eq_none (by simp [hok.memory])
        simp [becomeObject, buildObject, loadMpu, KState.record]
      · simpa [becomeObject, buildObject, loadMpu, KState.record, hie] using hi.item
  | invalidate he hm =>
    simp only [invalidated, invalidationHook]
    split
    · exact .inl ((((sameSeats_record _ _).trans (sameSeats_loadMpu _ _)).trans
        (sameSeats_bump _ _)).queued hi)
    · left
      have hother : ((s.record (.invalidateRequested m.d0 (m.d1 != 0#32))).reseat m.d0.toNat
          .stopped).Queued i q := ⟨hi.item, hi.kind, hi.gate⟩
      split
      · exact (((sameSeats_advanceReply _ _).trans (sameSeats_pend _)).trans
          (sameSeats_bump _ _)).queued hother
      · exact ((sameSeats_advanceReply _ _).trans (sameSeats_bump _ _)).queued hother
    · by_cases hie : i = m.d0.toNat
      · subst hie
        exact .inr ⟨rfl, hm, he, by simp [requeue], by simp, by simp⟩
      · left
        refine ⟨?_, hi.kind, hi.gate⟩
        simpa [requeue, hie] using hi.item
    · exact .inl ⟨hi.item, hi.kind, hi.gate⟩
  | _ => exact .inl ⟨hi.item, hi.kind, hi.gate⟩

/-- Make Runnable was accepted for this Context. -/
def Aborts (s : KState) (e : TableIndex) (m : Message) (x : TableIndex) : Prop :=
  x = e ∧ s.kind e = .context ∧
    ContextMethod.ofSelector m.desc.getSelector = some .makeRunnable

/-- Invalidate was accepted for this entry. -/
def Invalidates (s : KState) (e : TableIndex) (m : Message) (x : TableIndex) : Prop :=
  x = m.d0.toNat ∧ s.kind e = .objectTable ∧
    ObjectTableMethod.ofSelector m.desc.getSelector = some .invalidate

/-- A method takes a sender off its Gate by Make Runnable or Invalidate only. -/
theorem Effect.queuedAt_cases (h : Effect cfg e brand m k s rs s') {x g : TableIndex}
    (hx : s.QueuedAt x g) :
    s'.QueuedAt x g ∨ (∀ g', ¬s'.QueuedAt x g') ∧ (Aborts s e m x ∨ Invalidates s e m x) := by
  rcases hx with hx | hx
  · rcases h.sits_cases hx with hstay | ⟨hxe, hm, -, hrun, -⟩ | ⟨hxd, hm, he, hstop, -⟩
    · exact .inl (.inl hstay)
    · exact .inr ⟨fun g' => hrun.not_queuedAt, .inl ⟨hxe, hxe ▸ hx.kind (by simp), hm⟩⟩
    · refine .inr ⟨fun g' hg' => ?_, .inr ⟨hxd, he, hm⟩⟩
      have hkind : s'.kind x = .context := by
        rcases h.kind_cases x with hsame | hmem | hslot
        · exact hsame.trans (hx.kind (by simp))
        · simp [hx.kind (by simp)] at hmem
        · simp [hx.kind (by simp)] at hslot
      rcases hg' with hg' | hg'
      · cases hg'.unique hstop
      · simpa [hkind] using hg'.kind (by simp)
  · rcases h.queued_cases hx with hstay | ⟨hxd, hm, he, hstop⟩
    · exact .inl (.inr hstay)
    · refine .inr ⟨fun g' => hstop.not_queuedAt ?_, .inr ⟨hxd, he, hm⟩⟩
      rcases h.kind_cases x with hsame | hmem | hslot
      · exact hsame.trans (hx.kind (by simp))
      · simp [hx.kind (by simp)] at hmem
      · simp [hx.kind (by simp)] at hslot

/-- No method queues a sender. -/
theorem Effect.queuedAt_of (h : Effect cfg e brand m k s rs s') (hs : s.WellFormed)
    {x g : TableIndex} (hx : s'.QueuedAt x g) : s.QueuedAt x g := by
  rcases hx with hx | hx
  · obtain ⟨seat, hseat⟩ := hs.context x
    rcases h.sits_cases hseat with hstay | ⟨-, -, -, hrun, -⟩ | ⟨-, -, -, hstop, -⟩
    · exact .inl (hx.unique hstay ▸ hseat)
    · cases hx.unique hrun
    · cases hx.unique hstop
  · obtain ⟨q, hq⟩ := hs.interrupt x
    rcases h.queued_cases hq with hstay | ⟨-, -, -, hstop⟩
    · exact .inr (hx.unique hstay ▸ hq)
    · cases hx.unique hstop

/-- No method makes a Context wait at a Gate. -/
theorem Effect.receiving_of (h : Effect cfg e brand m k s rs s') (hs : s.WellFormed)
    {x g : TableIndex} (hx : s'.Sits x (.receiving g)) : s.Sits x (.receiving g) := by
  obtain ⟨seat, hseat⟩ := hs.context x
  rcases h.sits_cases hseat with hstay | ⟨-, -, -, hrun, -⟩ | ⟨-, -, -, hstop, -⟩
  · exact hx.unique hstay ▸ hseat
  · cases hx.unique hrun
  · cases hx.unique hstop

/-- A method's own events deliver nothing. -/
theorem Effect.history (h : Effect cfg e brand m k s rs s') :
    ∃ evs, s'.history = evs ++ s.history ∧ deliverers evs = [] := by
  cases h with
  | callOff => exact ⟨[.excepted e (Message.failure .wouldBlock)], rfl, rfl⟩
  | callOffReply =>
    exact ⟨[.excepted e (Message.failure .wouldBlock), .replyBrandAdvanced e], rfl, rfl⟩
  | mint => exact ⟨[_], rfl, rfl⟩
  | noInvalidate => exact ⟨[_], rfl, rfl⟩
  | invalidate =>
    simp only [invalidated, invalidationHook]
    split
    · exact ⟨[_, _], rfl, rfl⟩
    · split
      · exact ⟨[_, _, _], rfl, rfl⟩
      · exact ⟨[_, _, _], rfl, rfl⟩
    · exact ⟨[_, _], rfl, rfl⟩
    · exact ⟨[_, _], rfl, rfl⟩
  | split slot =>
    exact ⟨[.generationAdvanced e ((s.bump slot).generation e),
      .generationAdvanced slot (s.generation slot)], by simp [splitMemory], rfl⟩
  | makeChild slot =>
    exact ⟨[.generationAdvanced slot (s.generation slot)], by simp [makeChildMemory], rfl⟩
  | become t =>
    cases t with
    | context | gate | interrupt => exact ⟨[_, _], rfl, rfl⟩
  | writeKey r => exact ⟨[], rfl, rfl⟩
  | setTarget => exact ⟨[], rfl, rfl⟩
  | writeRegion r =>
    split
    · exact ⟨[], rfl, rfl⟩
    · exact ⟨[], rfl, rfl⟩
  | _ => exact ⟨[], rfl, rfl⟩

end

/-! ## Sends and queued senders -/

/-- What a send by `own` (by a kernel object, if `none`) does to the queued senders and records:
everybody else is taken off a Gate exactly if its message is delivered. -/
structure Accounted (s s' : KState) (own : Option TableIndex) (evs : List Event) : Prop where
  history : s'.history = evs ++ s.history
  once : (deliverers evs).Nodup
  others : ∀ x g, own ≠ some x → (s'.QueuedAt x g ↔ s.QueuedAt x g ∧ x ∉ deliverers evs)
  waited : ∀ x ∈ deliverers evs, own = some x ∨ ∃ g, s.QueuedAt x g
  /-- The sender's own message is delivered or queued, not both. -/
  ownQueued : ∀ x g, own = some x → s'.QueuedAt x g → x ∉ deliverers evs

section

variable {s s' : KState} {sender : Sender} {e : TableIndex} {ref : BrandRef} {evs : List Event}

theorem Sender.Ready.not_queuedAt (h : sender.Free s) {x g : TableIndex}
    (hx : sender.ident = some x) : ¬s.QueuedAt x g := by
  cases sender with
  | context c =>
    obtain rfl : c = x := Option.some.inj hx
    exact h.2.2.not_queuedAt
  | interrupt i =>
    obtain rfl : i = x := Option.some.inj hx
    exact h.2.2.not_queuedAt h.2.1
  | reply rs => cases hx

theorem Passing.accounted (h : Passing s s' evs) {own : Option TableIndex} :
    Accounted s s' own evs where
  history := h.history
  once := h.once
  others x g _ := h.queued x g
  waited x hx := .inr (h.waited x hx)
  ownQueued x g _ hx := ((h.queued x g).mp hx).2

/-- The message reaches a Context that was woken for it. -/
theorem Passing.informed (h : Passing s s' evs) (hown : ∀ x g, sender.ident = some x → ¬s.QueuedAt x g)
    (y : TableIndex) (m : Message) (b : Brand) :
    Accounted s (s'.informed y sender.ident m b) sender.ident (.delivered sender.ident y b m :: evs) := by
  have hsame := sameSeats_informed s' y sender.ident m b
  have hnot : ∀ x, sender.ident = some x → x ∉ deliverers evs := by
    intro x hx hmem
    obtain ⟨g, hg⟩ := h.waited x hmem
    exact hown x g hx hg
  have hhistory : (s'.informed y sender.ident m b).history =
      .delivered sender.ident y b m :: evs ++ s.history := by
    simp [KState.informed, KState.record, updateContext, h.history]
  have hown' : ∀ x g, sender.ident = some x → ¬(s'.informed y sender.ident m b).QueuedAt x g := by
    intro x g hx hq
    rw [hsame.queuedAt_iff, h.queued] at hq
    exact hown x g hx hq.1
  cases hident : sender.ident with
  | none =>
    rw [hident] at hhistory hsame
    refine ⟨hhistory, h.once, fun x g _ => ?_, fun x hx => .inr (h.waited x hx), by simp⟩
    rw [hsame.queuedAt_iff, h.queued]
    rfl
  | some z =>
    rw [hident] at hhistory hsame hown'
    refine ⟨hhistory, List.nodup_cons.mpr ⟨hnot z hident, h.once⟩, fun x g hx => ?_, fun x hx => ?_,
      fun x g hx hq => absurd hq (hown' x g hx)⟩
    · have hxz : x ≠ z := by
        rintro rfl
        exact hx rfl
      rw [hsame.queuedAt_iff, h.queued]
      simp [hxz]
    · rcases List.mem_cons.mp hx with rfl | hx
      · exact .inl rfl
      · exact .inr (h.waited x hx)

theorem Sends.accounted (h : Sends s sender e ref s') (hs : s.WellFormed) (hready : sender.Free s) :
    ∃ evs, Accounted s s' sender.ident evs := by
  have hown : ∀ x g, sender.ident = some x → ¬s.QueuedAt x g := fun x g => hready.not_queuedAt
  cases h with
  | queued hkind _ hpeek =>
    cases sender with
    | context c =>
      simp only [queuedUp]
      split
      · -- The sender is queued, and nobody else is touched.
        have hblocked : ∀ x g, ((s.saveBrand c (s.readRef ref)).reseat c (.sending e)).pend.QueuedAt x g ↔
            if x = c then e = g else s.QueuedAt x g := by
          intro x g
          have hsame : SameSeats s (s.saveBrand c (s.readRef ref)) :=
            s.sameSeats_updateContext c ⟨rfl, rfl, rfl, rfl⟩
          rw [(sameSeats_pend _).queuedAt_iff, queuedAt_reseat_iff
            (hsame.sits hready.2.2).kind_of_runnable (by rintro _ ⟨⟩; exact hkind), hsame.queuedAt_iff]
          simp
        refine ⟨[], rfl, by simp [deliverers], fun x g hx => ?_, by simp [deliverers], by simp [deliverers]⟩
        have hxc : x ≠ c := by
          rintro rfl
          exact hx rfl
        rw [hblocked, if_neg hxc]
        simp [deliverers]
      · exact ⟨_, (passing_refused _ _ _).accounted⟩
    | interrupt i =>
      have hblocked : ∀ x g, ((s.saveIrqBrand i (s.readRef ref)).requeue i
          (some (.senders e))).QueuedAt x g ↔ if x = i then some e = some g else s.QueuedAt x g := by
        intro x g
        have hsame : SameSeats s (s.saveIrqBrand i (s.readRef ref)) :=
          s.sameSeats_updateInterrupt i ⟨rfl, rfl⟩
        have hrequeue := queuedAt_requeue_iff (s := s.saveIrqBrand i (s.readRef ref)) (x := i) (y := x)
          (g := g) hready.2.1 (q := some e) (by rintro _ ⟨⟩; exact hkind)
        rw [hsame.queuedAt_iff] at hrequeue
        exact hrequeue
      refine ⟨[], rfl, by simp [deliverers], fun x g hx => ?_, by simp [deliverers], by simp [deliverers]⟩
      have hxi : x ≠ i := by
        rintro rfl
        exact hx rfl
      simp only [queuedUp]
      rw [hblocked, if_neg hxi]
      simp [deliverers]
    | reply rs => exact ⟨_, (Passing.refl s).accounted⟩
  | @woken y s₁ hkind _ hpeek htaken =>
    -- A receiver is woken; the rest is the sender's chain and the delivery.
    obtain ⟨p, hr⟩ := exists_mem_of_peek hpeek
    obtain ⟨z, hz, hy⟩ := hs.mem_receivers hr
    obtain rfl : y = z := by injection hz
    have hact : Act (.any True) s (s.reseat y .runnable).pend := .rouse y e _ trivial trivial hy rfl
    have hroused : Passing s (s.reseat y .runnable).pend [] := by
      refine .quiet rfl rfl fun x g => ?_
      rw [(sameSeats_pend _).queuedAt_iff, queuedAt_reseat_iff (hy.kind (by simp)) (by simp [Seat.gate])]
      split
      next hx =>
        subst hx
        constructor
        · intro h
          cases h
        · rintro (h | h)
          · cases h.unique hy
          · simpa [hy.kind (by simp)] using h.kind (by simp)
      next => rfl
    have hready₁ := hready.rouse hy (by simp)
    obtain ⟨evs, hevs⟩ := htaken.passing (hact.wellFormed hs) hready₁
    exact ⟨_, (hroused.trans hevs).informed hown y _ _⟩
  | answered hkind htop hexpected hsits htaken =>
    have hact : Act (.any True) s (s.answered e (s.readRef ref)) :=
      Act.answer e (s.readRef ref) trivial hsits hexpected htop trivial
    have hsame := (s.sameSeats_advanceReply e).trans (sameSeats_record _ (.answered e (s.readRef ref)))
    have hroused : Passing s (s.answered e (s.readRef ref))
        [.answered e (s.readRef ref), .replyBrandAdvanced e] := by
      refine .quiet rfl rfl fun x g => ?_
      rw [KState.answered, (sameSeats_pend _).queuedAt_iff,
        queuedAt_reseat_iff (hsame.sits hsits |>.kind (by simp)) (by simp [Seat.gate])]
      split
      next hx =>
        subst hx
        constructor
        · intro h
          cases h
        · rintro (h | h)
          · cases h.unique hsits
          · simpa [hkind] using h.kind (by simp)
      next => exact hsame.queuedAt_iff
    have hready₁ := hready.answered (b := s.readRef ref) hsits
    obtain ⟨evs, hevs⟩ := htaken.passing (hact.wellFormed hs) hready₁
    exact ⟨_, (hroused.trans hevs).informed hown e _ _⟩

end

/-! ## Ledgers -/

/-- An account of the queued senders over part of a kernel entry: each stays queued, or its
message is delivered once, or it is taken off its Gate as `ended` says. -/
structure Ledger (s s' : KState) (own : Option TableIndex) (ended : TableIndex → Prop)
    (evs : List Event) : Prop where
  history : s'.history = evs ++ s.history
  once : (deliverers evs).Nodup
  waiting : ∀ x g, s.QueuedAt x g → s'.QueuedAt x g ∧ x ∉ deliverers evs ∨
    (∀ g', ¬s'.QueuedAt x g') ∧ (x ∈ deliverers evs ∨ ended x)
  /-- Nobody but the sender itself is newly queued. -/
  fresh : ∀ x g, s'.QueuedAt x g → s.QueuedAt x g ∨ own = some x
  waited : ∀ x ∈ deliverers evs, own = some x ∨ ∃ g, s.QueuedAt x g
  ownQueued : ∀ x g, own = some x → s'.QueuedAt x g → x ∉ deliverers evs

namespace Ledger

variable {s s' s'' : KState} {own : Option TableIndex} {ended ended' : TableIndex → Prop}
  {evs evs' : List Event}

theorem trans (h : Ledger s s' own ended evs) (h' : Ledger s' s'' none ended' evs') :
    Ledger s s'' own (fun x => ended x ∨ ended' x) (evs' ++ evs) where
  history := by rw [h'.history, h.history, List.append_assoc]
  once := by
    rw [deliverers_append]
    refine List.Nodup.append h'.once h.once fun x hx' hx => ?_
    obtain ⟨g, hg⟩ := (h'.waited x hx').resolve_left (by simp)
    rcases h.waited x hx with hown | ⟨g', hg'⟩
    · exact h.ownQueued x g hown hg hx
    · rcases h.waiting x g' hg' with ⟨-, hnot⟩ | ⟨hgone, -⟩
      · exact hnot hx
      · exact hgone g hg
  waiting x g hx := by
    rw [deliverers_append, List.mem_append]
    rcases h.waiting x g hx with ⟨hstay, hnot⟩ | ⟨hgone, hend⟩
    · rcases h'.waiting x g hstay with ⟨hstay', hnot'⟩ | ⟨hgone', hend'⟩
      · exact .inl ⟨hstay', by tauto⟩
      · exact .inr ⟨hgone', by tauto⟩
    · -- Whoever is off its Gate stays off.
      refine .inr ⟨fun g' hg' => hgone g' ?_, by tauto⟩
      exact (h'.fresh x g' hg').resolve_right (by simp)
  fresh x g hx := h.fresh x g ((h'.fresh x g hx).resolve_right (by simp))
  waited x hx := by
    rw [deliverers_append, List.mem_append] at hx
    rcases hx with hx | hx
    · obtain ⟨g, hg⟩ := (h'.waited x hx).resolve_left (by simp)
      exact (h.fresh x g hg).symm.imp_right fun hg => ⟨g, hg⟩
    · exact h.waited x hx
  ownQueued x g hown hx := by
    have hqueued := (h'.fresh x g hx).resolve_right (by simp)
    rw [deliverers_append, List.mem_append, not_or]
    refine ⟨?_, h.ownQueued x g hown hqueued⟩
    rcases h'.waiting x g hqueued with ⟨-, hnot⟩ | ⟨hgone, -⟩
    · exact hnot
    · exact absurd hx (hgone g)

theorem imp (h : Ledger s s' own ended evs) (hended : ∀ x, ended x → ended' x) :
    Ledger s s' own ended' evs :=
  { h with
    waiting := fun x g hx => (h.waiting x g hx).imp_right fun ⟨hgone, hend⟩ =>
      ⟨hgone, hend.imp_right (hended x)⟩ }

end Ledger

section

variable {s s' : KState} {own : Option TableIndex} {ended : TableIndex → Prop} {evs : List Event}

theorem Accounted.ledger (h : Accounted s s' own evs) (hown : ∀ x g, own = some x → ¬s.QueuedAt x g) :
    Ledger s s' own ended evs where
  history := h.history
  once := h.once
  waiting x g hx := by
    have hne : own ≠ some x := fun hown' => hown x g hown' hx
    by_cases hmem : x ∈ deliverers evs
    · exact .inr ⟨fun g' hg' => ((h.others x g' hne).mp hg').2 hmem, .inl hmem⟩
    · exact .inl ⟨(h.others x g hne).mpr ⟨hx, hmem⟩, hmem⟩
  fresh x g hx := by
    by_cases hne : own = some x
    · exact .inr hne
    · exact .inl ((h.others x g hne).mp hx).1
  waited := h.waited
  ownQueued := h.ownQueued

theorem Passing.ledger (h : Passing s s' evs) : Ledger s s' own ended evs where
  history := h.history
  once := h.once
  waiting x g hx := by
    by_cases hmem : x ∈ deliverers evs
    · exact .inr ⟨fun g' hg' => ((h.queued x g').mp hg').2 hmem, .inl hmem⟩
    · exact .inl ⟨(h.queued x g).mpr ⟨hx, hmem⟩, hmem⟩
  fresh x g hx := .inl ((h.queued x g).mp hx).1
  waited x hx := .inr (h.waited x hx)
  ownQueued x g _ hx := ((h.queued x g).mp hx).2

variable {cfg : Config} {e : TableIndex} {brand : Brand} {m : Message} {k : Keys} {rs : ReplySender}

theorem Effect.ledger (h : Effect cfg e brand m k s rs s') (hs : s.WellFormed) :
    ∃ evs, Ledger s s' none (fun x => Aborts s e m x ∨ Invalidates s e m x) evs := by
  obtain ⟨evs, hhistory, hnone⟩ := h.history
  exact ⟨evs, hhistory, by simp [hnone],
    fun x g hx => (h.queuedAt_cases hx).imp (fun hstay => ⟨hstay, by simp [hnone]⟩)
      fun ⟨hgone, hend⟩ => ⟨hgone, .inr hend⟩,
    fun x g hx => .inl (h.queuedAt_of hs hx), by simp [hnone], by simp⟩

theorem Replied.ledger {key : Key} (h : Replied s key rs s') (hs : s.WellFormed) :
    ∃ evs, Ledger s s' none ended evs := by
  cases h with
  | elided => exact ⟨[], (Passing.refl s).ledger⟩
  | passed h =>
    obtain ⟨evs, hevs⟩ := h.accounted hs fun _ => trivial
    exact ⟨evs, hevs.ledger (by simp [Sender.ident])⟩
  | @misunderstood kind =>
    -- A Memory has looked at the brand all the same.
    have hpassing : Passing s (s.looked kind (s.target key) (s.resolve key).brand)
        (if kind = .memory then [.consulted (s.target key) (s.resolve key).brand] else []) := by
      apply Passing.quiet
      · unfold looked
        split <;> rfl
      · split <;> rfl
      · intro x g
        exact (sameSeats_looked _ _ _ _).queuedAt_iff
    exact ⟨_, hpassing.ledger⟩

/-- Sending a message to object `e`: queued senders have their messages delivered, or Make
Runnable or Invalidate takes them off their Gates. -/
theorem Delivered.ledger {sender : Sender} {ref : BrandRef} (h : Delivered cfg s sender e ref s')
    (hs : s.WellFormed) (hready : sender.Free s) :
    ∃ evs, Ledger s s' sender.ident
      (fun x => Aborts s e (s.outgoing sender).1 x ∨ Invalidates s e (s.outgoing sender).1 x) evs := by
  cases h with
  | passed h =>
    obtain ⟨evs, hevs⟩ := h.accounted hs hready
    exact ⟨evs, hevs.ledger fun x g => hready.not_queuedAt⟩
  | @served kind s₁ s₂ _ rs hserved h₁ heffect _ hreplied =>
    have hs₁ := Acts.wellFormed (h₁.acts hs hready) hs
    have hsame := sameSeats_looked s₁ kind e (s₁.readRef ref)
    have hkind : (s₁.looked kind e (s₁.readRef ref)).kind = s.kind :=
      hsame.kind.trans (kind_of_objects (Acts.objects (h₁.acts hs hready)))
    obtain ⟨evs₁, hevs₁⟩ := h₁.passing hs hready
    have hlooked : ∃ evs, Passing s₁ (s₁.looked kind e (s₁.readRef ref)) evs := by
      unfold looked
      split
      · exact ⟨[_], .quiet rfl rfl fun x g => (sameSeats_record _ _).queuedAt_iff⟩
      · exact ⟨[], .refl _⟩
    obtain ⟨evs₂, hevs₂⟩ := hlooked
    obtain ⟨evs₃, hevs₃⟩ := heffect.ledger (hs₁.of_sameSeats hsame)
    have hledger : ∃ evs₄, Ledger s₂ s' none (fun _ => False) evs₄ :=
      hreplied.ledger (heffect.wellFormed (hs₁.of_sameSeats hsame))
    obtain ⟨evs₄, hevs₄⟩ := hledger
    have htaken : Ledger s (s₁.looked kind e (s₁.readRef ref)) sender.ident (fun _ => False)
        (evs₂ ++ evs₁) := (hevs₁.trans hevs₂).ledger
    refine ⟨_, ((htaken.trans hevs₃).trans hevs₄).imp fun x hx => ?_⟩
    simpa only [Aborts, Invalidates, hkind, false_or, or_false] using hx

end

/-! ## Both sides of a Gate -/

/-- A Gate that somebody is queued at as a sender has nobody waiting to receive. -/
def KState.OneSided (s : KState) : Prop := ∀ x y g, s.QueuedAt x g → ¬s.Sits y (.receiving g)

section

variable {s s' : KState} {c : TableIndex} {k : Key} {sender : Sender} {e : TableIndex}

theorem KState.SameSeats.oneSided (h : SameSeats s s') (hs : s.OneSided) : s'.OneSided := by
  intro x y g hx hy
  exact hs x y g (h.queuedAt_iff.mp hx) (h.sits_iff.mp hy)

/-- Taking somebody off a Gate, or blocking somewhere else. -/
theorem oneSided_reseat (hs : s.OneSided) (hkind : s.kind c = .context) {seat : Seat}
    (hgate : ∀ g, seat.gate = some g → s.kind g = .gate)
    (hsending : ∀ g, seat = .sending g → ∀ y, ¬s.Sits y (.receiving g))
    (hreceiving : ∀ g, seat = .receiving g → ∀ x, ¬s.QueuedAt x g) :
    (s.reseat c seat).pend.OneSided := by
  intro x y g hx hy
  rw [(sameSeats_pend _).queuedAt_iff, queuedAt_reseat_iff hkind hgate] at hx
  rw [(sameSeats_pend _).sits_iff, sits_reseat_iff hkind hgate] at hy
  split_ifs at hx hy with hxc hyc hyc
  · simp [hx] at hy
  · exact hsending g hx y hy
  · exact hreceiving g hy.symm x hx
  · exact hs x y g hx hy

theorem oneSided_requeue {i : TableIndex} (hs : s.OneSided) (hkind : s.kind i = .interrupt)
    {q : Option TableIndex} (hgate : ∀ g, q = some g → s.kind g = .gate)
    (hsending : ∀ g, q = some g → ∀ y, ¬s.Sits y (.receiving g)) :
    (s.requeue i (q.map .senders)).OneSided := by
  intro x y g hx hy
  rw [queuedAt_requeue_iff hkind hgate] at hx
  have hy' : s.Sits y (.receiving g) := ⟨hy.body, hy.kind, hy.gate⟩
  split_ifs at hx with hxi
  · exact hsending g hx y hy'
  · exact hs x y g hx hy'

theorem oneSided_taken {x g : TableIndex} (hs : s.OneSided) (hx : s.Sits x (.sending g))
    (c : TableIndex) : (s.taken x c).OneSided :=
  (sameSeats_deposit _ _ _).oneSided
    (oneSided_reseat hs (hx.kind (by simp)) (by simp [Seat.gate]) (by simp) (by simp))

theorem Receives.oneSided (h : Receives s c k s') (hwf : s.WellFormed) (hc : s.Sits c .runnable)
    (hs : s.OneSided) : s'.OneSided := by
  induction h with
  | refused =>
    exact (sameSeats_refused _ _ _).oneSided hs
  | awaiting =>
    exact oneSided_reseat hs hc.kind_of_runnable (by simp [Seat.gate]) (by simp) (by simp)
  | waiting hopens hpeek =>
    -- It waits only after the list of senders was found empty.
    refine oneSided_reseat hs hc.kind_of_runnable ?_ (by simp) ?_
    · rintro g ⟨⟩
      exact hopens.1
    · rintro g ⟨⟩ x
      exact hwf.not_queuedAt hpeek
  | irq _ hpeek =>
    have hi := queued_of_peek hwf hpeek
    exact (sameSeats_informed _ _ _ _ _).oneSided ((sameSeats_deposit _ _ _).oneSided
      (oneSided_requeue (q := none) hs (hi.kind (by simp)) (by simp) (by simp)))
  | @sender s s' c x k hopens hpeek _ hsilent ih =>
    have hx := sits_of_peek hwf hpeek
    have htaken := oneSided_taken hs hx c
    refine (sameSeats_informed _ _ _ _ _).oneSided ?_
    cases henabled : (s.context x).save.message.desc.getReceiveEnabled with
    | false => exact hsilent henabled ▸ htaken
    | true =>
      exact ih henabled ((acts_receiving _ _).wellFormed ((acts_taken hx c).wellFormed hwf))
        ((sameSeats_receiving _ _).sits (sits_taken hx c)) ((sameSeats_receiving _ _).oneSided htaken)

theorem TakenIn.oneSided {dst : KeysRef} (h : TakenIn s sender dst s') (hwf : s.WellFormed)
    (hready : sender.Free s) (hs : s.OneSided) : s'.OneSided := by
  have hdeposit : ∀ ks, (s.deposit dst ks).OneSided := fun ks =>
    (sameSeats_deposit s dst ks).oneSided hs
  cases sender with
  | context c =>
    have hsame := s.sameSeats_deposit dst (s.sentKeys c)
    cases henabled : ((s.deposit dst (s.sentKeys c)).context c).save.message.desc.getReceiveEnabled with
    | false => exact h.2 henabled ▸ hdeposit _
    | true =>
      exact (h.1 henabled).oneSided ((acts_receiving _ _).wellFormed (hwf.of_sameSeats hsame))
        ((sameSeats_receiving _ _).sits (hsame.sits hready.2.2))
        ((sameSeats_receiving _ _).oneSided (hdeposit _))
  | interrupt i | reply rs => exact h ▸ hdeposit _

theorem Sends.oneSided {ref : BrandRef} (h : Sends s sender e ref s') (hwf : s.WellFormed)
    (hready : sender.Free s) (hs : s.OneSided) : s'.OneSided := by
  cases h with
  | queued hkind _ hpeek =>
    -- It is queued only after the list of receivers was found empty.
    cases sender with
    | context c =>
      simp only [queuedUp]
      split
      · have hsame : SameSeats s (s.saveBrand c (s.readRef ref)) :=
          s.sameSeats_updateContext c ⟨rfl, rfl, rfl, rfl⟩
        refine oneSided_reseat (hsame.oneSided hs) (hsame.sits hready.2.2).kind_of_runnable ?_ ?_
          (by simp)
        · rintro g ⟨⟩
          exact hkind
        · rintro g ⟨⟩ y hy
          exact hwf.not_receiving hpeek (hsame.sits_iff.mp hy)
      · exact (sameSeats_refused _ _ _).oneSided hs
    | interrupt i =>
      have hsame : SameSeats s (s.saveIrqBrand i (s.readRef ref)) :=
        s.sameSeats_updateInterrupt i ⟨rfl, rfl⟩
      refine oneSided_requeue (q := some e) (hsame.oneSided hs) hready.2.1 ?_ ?_
      · rintro g ⟨⟩
        exact hkind
      · rintro g ⟨⟩ y hy
        exact hwf.not_receiving hpeek (hsame.sits_iff.mp hy)
    | reply rs => exact hs
  | @woken y s₁ hkind _ hpeek htaken =>
    obtain ⟨p, hr⟩ := exists_mem_of_peek hpeek
    obtain ⟨z, hz, hy⟩ := hwf.mem_receivers hr
    obtain rfl : y = z := by injection hz
    exact (sameSeats_informed _ _ _ _ _).oneSided (htaken.oneSided
      ((Act.rouse (A := .any True) y e _ trivial trivial hy rfl).wellFormed hwf)
      (hready.rouse hy (by simp))
      (oneSided_reseat hs (hy.kind (by simp)) (by simp [Seat.gate]) (by simp) (by simp)))
  | answered hkind htop hexpected hsits htaken =>
    have hsame := (s.sameSeats_advanceReply e).trans (sameSeats_record _ (.answered e (s.readRef ref)))
    exact (sameSeats_informed _ _ _ _ _).oneSided (htaken.oneSided
      ((Act.answer (A := .any True) e (s.readRef ref) trivial hsits hexpected htop trivial).wellFormed hwf)
      (hready.answered hsits)
      (oneSided_reseat (hsame.oneSided hs) (hsits.kind (by simp)) (by simp [Seat.gate]) (by simp)
        (by simp)))

theorem Replied.oneSided {rs : ReplySender} (h : Replied s k rs s') (hwf : s.WellFormed)
    (hs : s.OneSided) : s'.OneSided := by
  cases h with
  | elided => exact hs
  | passed h => exact h.oneSided hwf (fun _ => trivial) hs
  | misunderstood => exact (sameSeats_looked _ _ _ _).oneSided hs

theorem Effect.oneSided {cfg : Config} {brand : Brand} {m : Message} {ks : Keys} {rs : ReplySender}
    (h : Effect cfg e brand m ks s rs s') (hwf : s.WellFormed) (hs : s.OneSided) : s'.OneSided := by
  intro x y g hx hy
  exact hs x y g (h.queuedAt_of hwf hx) (h.receiving_of hwf hy)

theorem Delivered.oneSided {cfg : Config} {ref : BrandRef} (h : Delivered cfg s sender e ref s')
    (hwf : s.WellFormed) (hready : sender.Free s) (hs : s.OneSided) : s'.OneSided := by
  cases h with
  | passed h => exact h.oneSided hwf hready hs
  | @served kind s₁ s₂ _ rs hserved h₁ heffect _ hreplied =>
    have hwf₁ := Acts.wellFormed (h₁.acts hwf hready) hwf
    have hsame := sameSeats_looked s₁ kind e (s₁.readRef ref)
    have hwf₂ := heffect.wellFormed (hwf₁.of_sameSeats hsame)
    exact hreplied.oneSided hwf₂ (heffect.oneSided (hwf₁.of_sameSeats hsame)
      (hsame.oneSided (h₁.oneSided hwf hready hs)))

end

end BrittleKernel
