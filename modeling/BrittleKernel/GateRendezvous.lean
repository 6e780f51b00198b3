import Mathlib
import BrittleKernel.Rendezvous
import BrittleKernel.Turns
import BrittleKernel.Runs
import BrittleKernel.Growth

/-!
# Waits at Gates over Whole Runs

A sender that is queued at a Gate waits until its message is delivered, Make Runnable calls
the send off, or Invalidate removes the sender.  In every run a wait ends at most once, in
one of these ways, and who waits is served in turn.
-/

namespace BrittleKernel

open Hoare KState

/-! ## Who is served -/

/-- The first item of a list: of the least priority, and first there. -/
def KState.First (s : KState) (l : ListId) (r : ItemRef) : Prop :=
  (s.queues l (s.ownerPriority r)).head? = some r ∧ ∀ p < s.ownerPriority r, s.queues l p = []

theorem KState.WellFormed.first_of_peek {s : KState} (hs : s.WellFormed) {l : ListId} {r : ItemRef}
    (h : s.peek l = some r) : s.First l r := by
  obtain ⟨before, p, after, hrange, hhead, hnone⟩ := List.findSome?_eq_some_iff.mp h
  have hp : s.ownerPriority r = p := by
    have hring := (hs.threaded.mem_iff l p r).mp (List.mem_of_mem_head? hhead)
    cases r with
    | ctxItem c =>
      obtain ⟨seat, hseat⟩ := hs.context c
      rw [item, hseat.body.ctxItem] at hring
      cases hlist : seat.ctxList <;> simp_all [ownerPriority]
    | senderItem c =>
      obtain ⟨seat, hseat⟩ := hs.context c
      rw [item, hseat.body.senderItem] at hring
      cases hlist : seat.senderList <;> simp_all [ownerPriority]
    | irqItem i =>
      obtain ⟨q, hq⟩ := hs.interrupt i
      rw [item, hq.item] at hring
      cases q <;> simp_all [ownerPriority]
  rw [First, hp]
  refine ⟨hhead, fun p' hp' => List.head?_eq_none_iff.mp (hnone p' ?_)⟩
  -- The sublists before `p` are those of the lesser priorities.
  have hsorted : (before ++ p :: after).Pairwise (· < ·) := hrange ▸ List.pairwise_lt_range
  have hmem : p' ∈ before ++ p :: after := by
    rw [← hrange, List.mem_range]
    have : p ∈ List.range nPriorities := by simp [hrange]
    exact hp'.trans (List.mem_range.mp this)
  rcases List.mem_append.mp hmem with h | h
  · exact h
  · have hle : p ≤ p' := by
      rcases List.mem_cons.mp h with rfl | h
      · exact le_rfl
      · exact ((List.pairwise_cons.mp (List.pairwise_append.mp hsorted).2.1).1 p' h).le
    exact absurd hp' (not_lt.mpr hle)

/-- Receiving from a Gate takes the first queued sender, and sending to it the first
receiver. -/
structure KState.ServesFirst (s : KState) : Prop where
  receive : ∀ {g c : TableIndex} {b : Brand}, s.kind g = .gate → b.isTop = false →
    s.Sits c .runnable →
    wp (deliverToBounded g b c) (fun _ s' =>
      (∀ x, ¬s.QueuedAt x g) ∧ s'.Sits c (.receiving g) ∨
        ∃ r b' m evs, s.First (.senders g) r ∧
          s'.history = .delivered (some r.owner) c b' m :: evs ++ s.history) never s
  send : ∀ {cfg : Config} {depth : Nat} {g : TableIndex} {ref : BrandRef} {sender : Sender},
    s.kind g = .gate → (s.readRef ref).isTop = true → sender.Free s →
    (∀ c, sender = .context c → c = s.current) →
    wp (deliverFrom cfg (depth + 1) g ref sender) (fun _ s' =>
      (∀ y, ¬s.Sits y (.receiving g)) ∧ s' = s.queuedUp sender (s.readRef ref) g ∨
        ∃ y b m evs, s.First (.receivers g) (.ctxItem y) ∧
          s'.history = .delivered sender.ident y b m :: evs ++ s.history) never s

theorem KState.WellFormed.servesFirst {s : KState} (hs : s.WellFormed) : s.ServesFirst where
  receive {g c b} hg htop hc := by
    have htarget : s.target (s.filled g b) = g := by simp [target, resolve, isLive, filled]
    have hresolve : s.resolve (s.filled g b) = s.filled g b := by simp [resolve, isLive, filled]
    have hrun := deliverToBounded_receives _ (k := s.filled g b) hs hc (Nat.lt_succ_self _)
    rw [htarget, hresolve] at hrun
    refine wp_conseq hrun fun _ s' h => ?_
    have hacts := h.acts hs hc
    cases h with
    | refused hopens =>
      refine absurd ⟨?_, ?_⟩ hopens
      · rw [htarget, hg]
      · rw [hresolve]
        exact htop
    | awaiting hown =>
      have hkind := hown.1 ▸ hown.2.1
      simp [htarget, hg] at hkind
    | waiting _ hpeek =>
      rw [htarget] at hpeek ⊢
      refine .inl ⟨fun x => hs.not_queuedAt hpeek, (sameSeats_pend _).sits ?_⟩
      exact s.sits_reseat c _ (fun _ => hc.kind_of_runnable) (by rintro _ ⟨⟩; exact hg)
    | @irq _ _ i _ _ hpeek =>
      rw [htarget] at hpeek
      exact .inr ⟨.irqItem i, _, _, [], hs.first_of_peek hpeek, rfl⟩
    | @sender _ s' _ x _ _ hpeek hreceive hsilent =>
      rw [htarget] at hpeek
      have hx := sits_of_peek hs hpeek
      -- The chain in between only adds to the history.
      obtain ⟨evs, hevs⟩ := Acts.history ((acts_taken hx c).trans (acts_chain hs hc hx hreceive hsilent))
      refine .inr ⟨.senderItem x, (s'.context x).savedBrand, s.blockedMessage (.senderItem x), evs,
        hs.first_of_peek hpeek, ?_⟩
      rw [List.cons_append, hevs]
      rfl
  send {cfg depth g ref sender} hg htop hready hcurrent := by
    simp only [deliverFrom, wp_bind, wp_get, hg, Gate.deliverFrom, wp_readRef, htop, if_true]
    refine (wp_bind _ _).mp (wp_conseq (gateSend_sends hs hg hready hcurrent htop) fun _ s' h => ?_)
    cases h with
    | queued _ _ hpeek => exact .inl ⟨fun y => hs.not_receiving hpeek, rfl⟩
    | @woken y s₁ _ _ hpeek htaken =>
      obtain ⟨p, hr⟩ := exists_mem_of_peek hpeek
      obtain ⟨z, hz, hy⟩ := hs.mem_receivers hr
      obtain rfl : y = z := by injection hz
      have hact : Act (.any True) s (s.reseat y .runnable).pend := .rouse y g _ trivial trivial hy rfl
      obtain ⟨evs, hevs⟩ := Acts.history ((Relation.ReflTransGen.single hact).trans
        (htaken.acts (hact.wellFormed hs) (hready.rouse hy (by simp))))
      refine .inr ⟨y, s₁.readRef ref, (s.outgoing sender).1, evs, hs.first_of_peek hpeek, ?_⟩
      rw [List.cons_append, hevs]
      rfl
    | answered hkind => simp [hg] at hkind

/-! ## Steps -/

/-- The events in which the sender of a step sends. -/
def announced : Option (TableIndex × Brand) → List Event
  | none => []
  | some (x, b) => [.sent x b]

/-- A step takes a sender off its Gate without delivering its message. -/
def KState.CutsShort (s : KState) (a : Action) (x : TableIndex) : Prop :=
  ∃ e m, Requests s a e m ∧ (Aborts s e m x ∨ Invalidates s e m x)

/-- A step's account of the queued senders, once its own sender has announced itself. -/
structure StepLedger (s s' : KState) (a : Action) (own : Option (TableIndex × Brand))
    (evs : List Event) : Prop where
  history : s'.history = evs ++ announced own ++ s.history
  once : (deliverers evs).Nodup
  waiting : ∀ x g, s.QueuedAt x g → s'.QueuedAt x g ∧ x ∉ deliverers evs ∨
    (∀ g', ¬s'.QueuedAt x g') ∧ (x ∈ deliverers evs ∨ s.CutsShort a x)
  fresh : ∀ x g, s'.QueuedAt x g → s.QueuedAt x g ∨ own.map Prod.fst = some x
  waited : ∀ x ∈ deliverers evs, own.map Prod.fst = some x ∨ ∃ g, s.QueuedAt x g
  ownQueued : ∀ x g, own.map Prod.fst = some x → s'.QueuedAt x g → x ∉ deliverers evs

section

variable {cfg : Config} {s t s' : KState} {a : Action} {own : Option (TableIndex × Brand)}
  {evs : List Event}

theorem Ledger.stepLedger (h : Ledger t s' (own.map Prod.fst) (s.CutsShort a) evs)
    (hqueued : ∀ x g, t.QueuedAt x g ↔ s.QueuedAt x g)
    (hhistory : t.history = announced own ++ s.history) : StepLedger s s' a own evs where
  history := by rw [h.history, hhistory, List.append_assoc]
  once := h.once
  waiting x g hx := h.waiting x g ((hqueued x g).mpr hx)
  fresh x g hx := (h.fresh x g hx).imp_left (hqueued x g).mp
  waited x hx := (h.waited x hx).imp_right fun ⟨g, hg⟩ => ⟨g, (hqueued x g).mp hg⟩
  ownQueued := h.ownQueued

/-- A step that moves nobody. -/
theorem StepLedger.quiet (hsame : SameSeats s s') (hhistory : s'.history = evs ++ s.history)
    (hevs : deliverers evs = []) : StepLedger s s' a none evs :=
  Ledger.stepLedger (t := s) (Passing.quiet hhistory hevs fun _ _ => hsame.queuedAt_iff).ledger
    (fun _ _ => Iff.rfl) rfl

theorem history_dropped (s : KState) (loc : KeyLoc) : (s.dropped loc).history = s.history := by
  unfold dropped
  split
  · rfl
  · cases loc <;> rfl

theorem SvcOutcome.ledger {stack : Word} {regs : UserRegisters} (h : SvcOutcome cfg s stack regs s')
    (hs : s.Settled) (hsys : (⟨regs 0⟩ : Descriptor).getSysnum = 0) :
    ∃ t own evs, (∀ x g, t.QueuedAt x g ↔ s.QueuedAt x g) ∧ t.history = announced own ++ s.history ∧
      Ledger t s' (own.map Prod.fst) (s.CutsShort (.svc stack regs)) evs := by
  have hsame := s.sameSeats_ready stack regs
  have hready : (s.ready stack regs).history = s.history := history_dropped _ _
  cases h with
  | idle => exact ⟨_, none, [], fun x g => hsame.queuedAt_iff, hready, (Passing.refl _).ledger⟩
  | received _ _ h =>
    have hsame₂ := hsame.trans (sameSeats_dropped _ (s.sourceReg regs))
    obtain ⟨evs, hevs⟩ := h.passing (hs.wellFormed.of_sameSeats hsame₂) (hsame₂.sits hs.running)
    exact ⟨_, none, evs, fun x g => hsame₂.queuedAt_iff, (history_dropped _ _).trans hready, hevs.ledger⟩
  | sent hsend h =>
    obtain ⟨evs, hevs⟩ := h.ledger (hs.wellFormed_svcSending stack regs) (hs.free stack regs)
    have hsame₂ := hsame.trans (sameSeats_sending _ s.current (s.targetReg regs))
    refine ⟨_, some (s.current,
      (((s.ready stack regs).dropped (s.targetReg regs)).keyAt (s.targetReg regs)).brand), evs,
      fun x g => hsame₂.queuedAt_iff, ?_, hevs.imp fun x hx => ?_⟩
    · rw [sending, history_record, history_dropped, hready]
      rfl
    · rw [outgoing_svcSending, target_keyAt_ready] at hx
      refine ⟨_, _, .svc hsys hsend, ?_⟩
      simpa only [Aborts, Invalidates, invoked, kind_of_objects objects_svcSending] using hx

theorem Switches.passing (h : Switches s s') : ∃ evs, Passing s s' evs := by
  have hsame := h.sameSeats
  cases h with
  | stays => exact ⟨[], .refl s⟩
  | elects c => exact ⟨[.switched c], .quiet rfl rfl fun _ _ => hsame.queuedAt_iff⟩

theorem passing_deferToPendSv (s : KState) : Passing s s.deferToPendSv [] :=
  .of_sameSeats (sameSeats_deferToPendSv s) (by unfold deferToPendSv; split <;> rfl)

theorem Stepped.ledger (h : Stepped cfg s a s') (hs : s.Settled) :
    ∃ own evs, StepLedger s s' a own evs := by
  have hwf := hs.wellFormed
  cases h with
  | @ipc _ _ s₁ _ hsys houtcome hswitch =>
    obtain ⟨t, own, evs, hqueued, hhistory, hledger⟩ := houtcome.ledger hs hsys
    obtain ⟨evs', hevs'⟩ := hswitch.passing
    have hswitched : Ledger s₁ s' none (fun _ => False) evs' := hevs'.ledger
    exact ⟨own, _, ((hledger.trans hswitched).imp (by simp)).stepLedger hqueued hhistory⟩
  | copyKey => exact ⟨none, [], .quiet (sameSeats_setKeyAt _ _ _) rfl rfl⟩
  | stillQueued => exact ⟨none, [], .quiet (sameSeats_masked _ _) rfl rfl⟩
  | @irq n i s₁ hn _ hi hidle hdelivered =>
    have hsame := (sameSeats_masked s i).trans (sameSeats_sending _ i (.target i))
    obtain ⟨evs, hevs⟩ := hdelivered.ledger (hwf.of_sameSeats hsame)
      ⟨trivial, (congrFun hsame.kind i).trans (hs.irqTable _ i hi), hsame.queued hidle⟩
    have hkind : ((s.masked i).sending i (.target i)).kind = s.kind := hsame.kind
    have hmessage : (((s.masked i).sending i (.target i)).outgoing (.interrupt i)).1 = s.irqMessage i :=
      irqMessage_sending i
    have hdeferred : Ledger s₁ s₁.deferToPendSv none (fun _ => False) _ :=
      (passing_deferToPendSv s₁).ledger
    refine ⟨some (i, (((s.masked i).dropped (.target i)).keyAt (.target i)).brand), _,
      Ledger.stepLedger ((hevs.trans hdeferred).imp fun x hx => ?_) (fun x g => hsame.queuedAt_iff) ?_⟩
    · rw [hmessage] at hx
      refine ⟨_, _, .irq hi, ?_⟩
      simpa only [Aborts, Invalidates, hkind, or_false] using hx
    · rw [sending, history_record, history_dropped]
      rfl
  | pendSv =>
    exact ⟨none, [.switched _], .quiet (((show SameSeats s ({ s with pendSv := false } : KState) from
      ⟨rfl, rfl, rfl, fun _ => .refl _, fun _ => .refl _⟩).trans (sameSeats_entered _ _ _)).trans
        (sameSeats_switchTo _ _)) rfl rfl⟩
  | store =>
    exact ⟨none, [], .quiet ⟨rfl, rfl, rfl, fun _ => .refl _, fun _ => .refl _⟩ rfl rfl⟩
  | noCall | noIrq | noPendSv | noStore =>
    exact ⟨none, [], .quiet ⟨rfl, rfl, rfl, fun _ => .refl _, fun _ => .refl _⟩ rfl rfl⟩

end

/-! ## The history of a run -/

/-- The sender has sent a message that has not been delivered since. -/
def Outstanding (h : List Event) (x : TableIndex) : Prop :=
  ∃ later b earlier, h = later ++ .sent x b :: earlier ∧ x ∉ deliverers later

/-- Every delivery is of a message that was sent before and had not been delivered yet. -/
def Matched (h : List Event) : Prop :=
  ∀ later x c b m earlier, h = later ++ .delivered (some x) c b m :: earlier → Outstanding earlier x

section

variable {h evs : List Event} {x : TableIndex}

theorem Outstanding.append (hx : Outstanding h x) (hevs : x ∉ deliverers evs) :
    Outstanding (evs ++ h) x := by
  obtain ⟨later, b, earlier, rfl, hlater⟩ := hx
  refine ⟨evs ++ later, b, earlier, by rw [List.append_assoc], ?_⟩
  rw [deliverers_append, List.mem_append]
  exact fun hmem => hmem.elim hevs hlater

theorem Matched.append (hh : Matched h) (honce : (deliverers evs).Nodup)
    (houtstanding : ∀ x ∈ deliverers evs, Outstanding h x) : Matched (evs ++ h) := by
  intro later x c b m earlier hsplit
  rcases List.append_eq_append_iff.mp hsplit with ⟨rest, rfl, hrest⟩ | ⟨rest, hevs, hrest⟩
  · -- The delivery is older than these events.
    exact hh _ _ _ _ _ _ hrest
  · cases rest with
    | nil =>
      rw [List.nil_append] at hrest
      exact hh [] _ _ _ _ _ hrest.symm
    | cons ev rest =>
      obtain ⟨rfl, rfl⟩ := List.cons.inj hrest
      subst hevs
      rw [deliverers_append, deliverers_delivered] at honce houtstanding
      have hlater := (List.nodup_cons.mp (List.nodup_append.mp honce).2.1).1
      exact (houtstanding x (by simp)).append hlater

end

/-- What the history of a run says about its deliveries. -/
structure KState.Accountable (s : KState) : Prop where
  matched : Matched s.history
  outstanding : ∀ x g, s.QueuedAt x g → Outstanding s.history x

section

variable {s s' : KState} {a : Action} {own : Option (TableIndex × Brand)} {evs : List Event}

@[simp] theorem deliverers_announced (own : Option (TableIndex × Brand)) :
    deliverers (announced own) = [] := by
  cases own with
  | none => rfl
  | some _ => rfl

theorem StepLedger.accountable (h : StepLedger s s' a own evs) (hs : s.Accountable) :
    s'.Accountable := by
  have hown : ∀ x, own.map Prod.fst = some x → Outstanding (announced own ++ s.history) x := by
    intro x hx
    cases own with
    | none => cases hx
    | some y =>
      obtain rfl := Option.some.inj hx
      exact ⟨[], y.2, s.history, rfl, by simp [deliverers]⟩
  have hqueued : ∀ x g, s.QueuedAt x g → Outstanding (announced own ++ s.history) x := fun x g hx =>
    (hs.outstanding x g hx).append (by simp)
  have hall : ∀ x ∈ deliverers evs, Outstanding (announced own ++ s.history) x := by
    intro x hx
    rcases h.waited x hx with hsender | ⟨g, hg⟩
    · exact hown x hsender
    · exact hqueued x g hg
  have hannounced : Matched (announced own ++ s.history) :=
    hs.matched.append (by simp) (by simp)
  constructor
  · rw [h.history, List.append_assoc]
    exact hannounced.append h.once hall
  · intro x g hx
    rw [h.history, List.append_assoc]
    rcases h.fresh x g hx with hwaiting | hsender
    · -- It has waited all along, so its message was not delivered.
      refine (hqueued x g hwaiting).append ?_
      rcases h.waiting x g hwaiting with ⟨-, hnot⟩ | ⟨hgone, -⟩
      · exact hnot
      · exact absurd hx (hgone g)
    · exact (hown x hsender).append (h.ownQueued x g hsender hx)

end

theorem Booted.accountable {app : AppInfo} {s : KState} (h : Booted app s) : s.Accountable := by
  have hnone : ∀ x g, ¬s.QueuedAt x g := by
    intro x g hx
    rcases hx with hx | hx
    · by_cases hx2 : x = 2
      · subst hx2
        cases hx.unique h.runnable
      · have hstate := hx.body.state
        simp [h.others x hx2, Seat.state] at hstate
    · have hitem := hx.item
      simp [h.interrupt] at hitem
  refine ⟨?_, fun x g hx => absurd hx (hnone x g)⟩
  rw [h.history]
  intro later x c b m earlier hsplit
  rcases later with _ | ⟨ev, later⟩ <;> simp at hsplit

/-! ## Waits -/

/-- How a wait ends. -/
inductive Ending where
  | delivered
  | aborted
  | invalidated

/-- The step's events, and the message it sends, end a wait in this way. -/
def Ends (s : KState) (a : Action) (evs : List Event) (x : TableIndex) : Ending → Prop
  | .delivered => (deliverers evs).count x = 1
  | .aborted => x ∉ deliverers evs ∧ ∃ e m, Requests s a e m ∧ Aborts s e m x
  | .invalidated => x ∉ deliverers evs ∧ ∃ e m, Requests s a e m ∧ Invalidates s e m x

theorem Ends.unique {s : KState} {a : Action} {evs : List Event} {x : TableIndex} {how how' : Ending}
    (h : Ends s a evs x how) (h' : Ends s a evs x how') : how = how' := by
  have hmem : (deliverers evs).count x = 1 → x ∈ deliverers evs := fun hcount =>
    List.count_pos_iff.mp (by omega)
  have hkinds : (∃ e m, Requests s a e m ∧ Aborts s e m x) →
      ¬∃ e m, Requests s a e m ∧ Invalidates s e m x := by
    rintro ⟨e, m, hreq, -, hcontext, -⟩ ⟨e', m', hreq', -, htable, -⟩
    obtain ⟨rfl, rfl⟩ := hreq.unique hreq'
    simp [hcontext] at htable
  cases how with
  | delivered => cases how' with
    | delivered => rfl
    | aborted | invalidated => exact absurd (hmem h) h'.1
  | aborted => cases how' with
    | delivered => exact absurd (hmem h') h.1
    | aborted => rfl
    | invalidated => exact absurd h'.2 (hkinds h.2)
  | invalidated => cases how' with
    | delivered => exact absurd (hmem h') h.1
    | aborted => exact absurd h.2 (hkinds h'.2)
    | invalidated => rfl

/-- The wait of `x` at Gate `g` over a run: it lasts to the end of the run, or it ends in one
step, after which `x` is neither queued nor is a message of it delivered. -/
inductive Wait (cfg : Config) (x g : TableIndex) : KState → List Action → KState → Option Ending → Prop where
  | lasts {s : KState} : s.QueuedAt x g → Wait cfg x g s [] s none
  | stays {s t s' : KState} {a : Action} {as : List Action} {evs : List Event} {how : Option Ending} :
      s.QueuedAt x g → step cfg a s = .ok () t → t.history = evs ++ s.history → t.QueuedAt x g →
      x ∉ deliverers evs → Wait cfg x g t as s' how → Wait cfg x g s (a :: as) s' how
  | ends {s t s' : KState} {a : Action} {as : List Action} {evs evs' : List Event} {how : Ending} :
      s.QueuedAt x g → step cfg a s = .ok () t → t.history = evs ++ s.history →
      (∀ g', ¬t.QueuedAt x g') → Ends s a evs x how → runActions cfg as t = .ok () s' →
      s'.history = evs' ++ t.history → (∀ g', ¬s'.QueuedAt x g') → x ∉ deliverers evs' →
      Wait cfg x g s (a :: as) s' (some how)

section

variable {etl : Etl} {app : AppInfo} {s s' : KState} {a : Action} {as : List Action}
  {x g : TableIndex} {evs : List Event}

theorem Reachable.ledger (h : Reachable (.source etl) app s)
    (hstep : BrittleKernel.step (.source etl) a s = .ok () s') :
    ∃ own evs, StepLedger s s' a own evs :=
  (h.stepped rfl hstep).ledger (h.settled rfl)

theorem Reachable.accountable (h : Reachable (.source etl) app s) : s.Accountable :=
  h.invariant (fun _ _ hboot => hboot.booted.accountable) fun _ _ _ hs ih hstep => by
    obtain ⟨own, evs, hledger⟩ := hs.ledger hstep
    exact hledger.accountable ih

/-- The history of a run extends the one it started with. -/
theorem Reachable.history_run (h : Reachable (.source etl) app s)
    (hrun : runActions (.source etl) as s = .ok () s') : ∃ evs, s'.history = evs ++ s.history := by
  induction as generalizing s with
  | nil => exact ⟨[], by rw [runActions_nil.mp hrun]; rfl⟩
  | cons a as ih =>
    obtain ⟨t, hstep, hrun⟩ := runActions_cons.mp hrun
    obtain ⟨own, evs, hledger⟩ := h.ledger hstep
    obtain ⟨evs', hevs'⟩ := ih (.step h hstep) hrun
    exact ⟨evs' ++ (evs ++ announced own), by simp [hevs', hledger.history]⟩

/-- Who is not queued and does not send is neither queued nor delivered later. -/
theorem Reachable.stays_gone (h : Reachable (.source etl) app s)
    (hrun : runActions (.source etl) as s = .ok () s') (hgone : ∀ g, ¬s.QueuedAt x g)
    (hhistory : s'.history = evs ++ s.history) (hsilent : ∀ b, .sent x b ∉ evs) :
    (∀ g, ¬s'.QueuedAt x g) ∧ x ∉ deliverers evs := by
  induction as generalizing s evs with
  | nil =>
    obtain rfl := runActions_nil.mp hrun
    obtain rfl : evs = [] := by simpa using hhistory
    exact ⟨hgone, by simp [deliverers]⟩
  | cons a as ih =>
    obtain ⟨t, hstep, hrun⟩ := runActions_cons.mp hrun
    obtain ⟨own, evs₁, hledger⟩ := h.ledger hstep
    obtain ⟨evs₂, hevs₂⟩ := (Reachable.step h hstep).history_run hrun
    have hsplit : evs = evs₂ ++ (evs₁ ++ announced own) := by
      rw [hevs₂, hledger.history, ← List.append_assoc] at hhistory
      exact (List.append_cancel_right hhistory).symm
    subst hsplit
    have hown : own.map Prod.fst ≠ some x := by
      intro hx
      cases own with
      | none => cases hx
      | some y =>
        obtain rfl := Option.some.inj hx
        exact hsilent y.2 (by simp [announced])
    have hgone' : ∀ g, ¬t.QueuedAt x g := by
      intro g hg
      rcases hledger.fresh x g hg with hq | hx
      · exact hgone g hq
      · exact hown hx
    have hnot : x ∉ deliverers evs₁ := by
      intro hx
      rcases hledger.waited x hx with hx | ⟨g, hg⟩
      · exact hown hx
      · exact hgone g hg
    obtain ⟨hrest, hnot'⟩ := ih (.step h hstep) hrun hgone' hevs₂ fun b hb =>
      hsilent b (List.mem_append_left _ hb)
    refine ⟨hrest, ?_⟩
    simp only [deliverers_append, deliverers_announced, List.append_nil, List.mem_append, not_or]
    exact ⟨hnot', hnot⟩

/-- A wait lasts, or it ends once. -/
theorem Reachable.exists_wait (h : Reachable (.source etl) app s)
    (hrun : runActions (.source etl) as s = .ok () s') (hx : s.QueuedAt x g)
    (hhistory : s'.history = evs ++ s.history) (hsilent : ∀ b, .sent x b ∉ evs) :
    ∃ how, Wait (.source etl) x g s as s' how := by
  induction as generalizing s evs with
  | nil =>
    obtain rfl := runActions_nil.mp hrun
    exact ⟨none, .lasts hx⟩
  | cons a as ih =>
    obtain ⟨t, hstep, hrun⟩ := runActions_cons.mp hrun
    obtain ⟨own, evs₁, hledger⟩ := h.ledger hstep
    obtain ⟨evs₂, hevs₂⟩ := (Reachable.step h hstep).history_run hrun
    have hsilent₂ : ∀ b, .sent x b ∉ evs₂ := by
      intro b hb
      rw [hevs₂, hledger.history, ← List.append_assoc] at hhistory
      exact hsilent b (List.append_cancel_right hhistory ▸ List.mem_append_left _ hb)
    have hdeliverers : deliverers (evs₁ ++ announced own) = deliverers evs₁ := by simp
    rcases hledger.waiting x g hx with ⟨hstay, hnot⟩ | ⟨hgone, hend⟩
    · obtain ⟨how, hwait⟩ := ih (.step h hstep) hrun hstay hevs₂ hsilent₂
      exact ⟨how, .stays hx hstep hledger.history hstay (hdeliverers ▸ hnot) hwait⟩
    · obtain ⟨hrest, hnot⟩ := (Reachable.step h hstep).stays_gone hrun hgone hevs₂ hsilent₂
      have hends : ∃ how, Ends s a (evs₁ ++ announced own) x how := by
        by_cases hmem : x ∈ deliverers evs₁
        · refine ⟨.delivered, ?_⟩
          rw [Ends, hdeliverers]
          exact List.count_eq_one_of_mem hledger.once hmem
        · -- Not delivered: the step's message called it off or removed the sender.
          obtain ⟨e, m, hreq, haborts | hinvalidates⟩ := hend.resolve_left hmem
          · exact ⟨.aborted, hdeliverers ▸ hmem, e, m, hreq, haborts⟩
          · exact ⟨.invalidated, hdeliverers ▸ hmem, e, m, hreq, hinvalidates⟩
      obtain ⟨how, hends⟩ := hends
      exact ⟨some how, .ends hx hstep hledger.history hgone hends hrun hevs₂ hrest hnot⟩

theorem Wait.unique {cfg : Config} {how how' : Option Ending} (h : Wait cfg x g s as s' how)
    (h' : Wait cfg x g s as s' how') : how = how' := by
  induction h with
  | lasts => cases h' with
    | lasts => rfl
  | stays _ hstep _ hstay _ _ ih => cases h' with
    | stays _ hstep' _ _ _ hrest' =>
      obtain ⟨-, rfl⟩ := EStateM.Result.ok.inj (hstep.symm.trans hstep')
      exact ih hrest'
    | ends _ hstep' _ hgone' =>
      obtain ⟨-, rfl⟩ := EStateM.Result.ok.inj (hstep.symm.trans hstep')
      exact absurd hstay (hgone' _)
  | ends _ hstep hhistory hgone hends => cases h' with
    | stays _ hstep' _ hstay' =>
      obtain ⟨-, rfl⟩ := EStateM.Result.ok.inj (hstep.symm.trans hstep')
      exact absurd hstay' (hgone _)
    | ends _ hstep' hhistory' _ hends' =>
      obtain ⟨-, rfl⟩ := EStateM.Result.ok.inj (hstep.symm.trans hstep')
      obtain rfl := List.append_cancel_right (hhistory.symm.trans hhistory')
      exact congrArg some (hends.unique hends')

end

/-! ## The rules of Gates -/

/-- The rules that Gates keep in every state between kernel entries, and in every run from
there. -/
structure KState.GateRules (cfg : Config) (s : KState) : Prop where
  oneSided : ∀ g, (∀ p, s.queues (.senders g) p = []) ∨ ∀ p, s.queues (.receivers g) p = []
  /-- No message is delivered twice, or without having been sent. -/
  matched : Matched s.history
  /-- Who is queued has sent a message that was not delivered yet. -/
  outstanding : ∀ x g, s.QueuedAt x g → Outstanding s.history x
  /-- Up to the sender's next send, its wait lasts or ends once, in one way. -/
  wait : ∀ as s' evs x g, runActions cfg as s = .ok () s' → s'.history = evs ++ s.history →
    s.QueuedAt x g → (∀ b, .sent x b ∉ evs) → ∃! how, Wait cfg x g s as s' how
  /-- In a step the lists change in turns. -/
  turns : ∀ a s', step cfg a s = .ok () s' → ∃ joined, Turns cfg s joined s'
  /-- Nobody is overtaken in turns, and the first is served. -/
  served : ∀ joined t, Turns cfg s joined t → t.ServesFirst ∧
    ∀ l p r r', [r, r'].Sublist (t.queues l p) → joined l p r → joined l p r'

theorem KState.OneSided.queues {s : KState} (h : s.OneSided) (hs : s.WellFormed) (g : TableIndex) :
    (∀ p, s.queues (.senders g) p = []) ∨ ∀ p, s.queues (.receivers g) p = [] := by
  by_contra hboth
  simp only [not_or, not_forall] at hboth
  obtain ⟨⟨p, hp⟩, ⟨p', hp'⟩⟩ := hboth
  obtain ⟨r, hr⟩ := List.exists_mem_of_ne_nil _ hp
  obtain ⟨r', hr'⟩ := List.exists_mem_of_ne_nil _ hp'
  obtain ⟨y, -, hy⟩ := hs.mem_receivers hr'
  exact h r.owner y g (hs.queuedAt_iff.mpr ⟨r, p, hr, rfl⟩) hy

section

variable {cfg : Config} {s s' : KState} {a : Action}

theorem Booted.oneSided {app : AppInfo} (h : Booted app s) : s.OneSided := by
  intro x y g hx
  obtain ⟨later, b, earlier, hhistory, -⟩ := h.accountable.outstanding x g hx
  rw [h.history] at hhistory
  rcases later with _ | ⟨ev, later⟩ <;> simp at hhistory

theorem SvcOutcome.oneSided {stack : Word} {regs : UserRegisters} (h : SvcOutcome cfg s stack regs s')
    (hs : s.Settled) (hsided : s.OneSided) : s'.OneSided := by
  have hsame := s.sameSeats_ready stack regs
  cases h with
  | idle => exact hsame.oneSided hsided
  | received _ _ h =>
    have hsame₂ := hsame.trans (sameSeats_dropped _ (s.sourceReg regs))
    exact h.oneSided (hs.wellFormed.of_sameSeats hsame₂) (hsame₂.sits hs.running)
      (hsame₂.oneSided hsided)
  | sent _ h =>
    have hsame₂ := hsame.trans (sameSeats_sending _ s.current (s.targetReg regs))
    exact h.oneSided (hs.wellFormed_svcSending stack regs) (hs.free stack regs)
      (hsame₂.oneSided hsided)

theorem Stepped.oneSided (h : Stepped cfg s a s') (hs : s.Settled) (hsided : s.OneSided) :
    s'.OneSided := by
  cases h with
  | ipc _ houtcome hswitch => exact hswitch.sameSeats.oneSided (houtcome.oneSided hs hsided)
  | copyKey => exact (sameSeats_setKeyAt _ _ _).oneSided hsided
  | stillQueued => exact (sameSeats_masked _ _).oneSided hsided
  | @irq n i s₁ _ _ hi hidle hdelivered =>
    have hsame := (sameSeats_masked s i).trans (sameSeats_sending _ i (.target i))
    exact (sameSeats_deferToPendSv s₁).oneSided (hdelivered.oneSided
      (hs.wellFormed.of_sameSeats hsame)
      ⟨trivial, (congrFun hsame.kind i).trans (hs.irqTable _ i hi), hsame.queued hidle⟩
      (hsame.oneSided hsided))
  | pendSv =>
    exact (((show SameSeats s ({ s with pendSv := false } : KState) from
      ⟨rfl, rfl, rfl, fun _ => .refl _, fun _ => .refl _⟩).trans (sameSeats_entered _ _ _)).trans
        (sameSeats_switchTo _ _)).oneSided hsided
  | store =>
    exact SameSeats.oneSided (s := s) ⟨rfl, rfl, rfl, fun _ => .refl _, fun _ => .refl _⟩ hsided
  | noCall | noIrq | noPendSv | noStore => exact hsided

end

end BrittleKernel
