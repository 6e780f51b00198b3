import BrittleKernel.SeatMoves
import Mathlib.Logic.Relation

/-!
# Acts of Message Passing

An abstract machine for message passing.  Its acts are the state changes at which every
invariant holds again: a save area is written, a key register is filled, a Context moves
from one seat to another.  An `Authority` says which keys the kernel may be holding and
which objects it may touch on their account; an invariant that every act keeps is kept by
message passing as a whole.
-/

namespace BrittleKernel

/-! ## Depositing keys -/

def KeyLoc.owner : KeyLoc → TableIndex
  | keyReg c _ => c
  | regionReg c _ => c
  | target i => i

/-- Put a key in the register that a map position names; register 0 is defended. -/
def storeKey (regs : Fin nTaskKeys → Key) (map : Word) (i : Nat) (k : Key) :
    Fin nTaskKeys → Key :=
  if nibble map i = 0 then regs else Function.update regs (nibble map i) k

/-- Put a message's keys in registers, in the order of their positions. -/
def storeKeys (regs : Fin nTaskKeys → Key) (map : Word) (ks : Keys) : Fin nTaskKeys → Key :=
  storeKey (storeKey (storeKey (storeKey regs map 0 (ks 0)) map 1 (ks 1)) map 2 (ks 2)) map 3 (ks 3)

theorem storeKey_cases (regs : Fin nTaskKeys → Key) (map : Word) (i : Nat) (k : Key)
    (r : Fin nTaskKeys) :
    storeKey regs map i k r = regs r ∨ r ≠ 0 ∧ storeKey regs map i k r = k := by
  unfold storeKey
  split_ifs with h
  · exact .inl rfl
  · by_cases hr : r = nibble map i
    · subst hr; simp [h]
    · simp [hr]

/-- A register holds what it held before, or one of the message's keys. -/
theorem storeKeys_cases (regs : Fin nTaskKeys → Key) (map : Word) (ks : Keys)
    (r : Fin nTaskKeys) :
    storeKeys regs map ks r = regs r ∨ r ≠ 0 ∧ ∃ i, storeKeys regs map ks r = ks i := by
  have h₀ := storeKey_cases regs map 0 (ks 0) r
  have h₁ := storeKey_cases (storeKey regs map 0 (ks 0)) map 1 (ks 1) r
  have h₂ := storeKey_cases (storeKey (storeKey regs map 0 (ks 0)) map 1 (ks 1)) map 2 (ks 2) r
  have h₃ := storeKey_cases (storeKey (storeKey (storeKey regs map 0 (ks 0)) map 1 (ks 1)) map 2
    (ks 2)) map 3 (ks 3) r
  unfold storeKeys
  grind

namespace KState

/-- The keys of a message arrive at their destination. -/
def deposit (s : KState) (dst : KeysRef) (ks : Keys) : KState :=
  match dst with
  | .frame => s
  | .bank c map => s.updateContext c fun b => { b with keys := storeKeys b.keys map ks }

/-- The keys that a Context's message carries. -/
def sentKeys (s : KState) (c : TableIndex) : Keys := fun i =>
  if i = 0 ∧ (s.context c).save.message.desc.isCall then
    s.filled c (s.context c).expectedReplyBrand
  else
    s.keyAt (.keyReg c (nibble ((s.context c).save 6) i))

/-- The state changes of `advance_reply_brand`. -/
def advanceReply (s : KState) (c : TableIndex) : KState :=
  (s.updateContext c fun b =>
    { b with expectedReplyBrand := (b.expectedReplyBrand + 1#64) ||| Brand.topMask }).record
      (.replyBrandAdvanced c)

@[simp] theorem objects_deposit (s : KState) (dst : KeysRef) (ks : Keys) :
    (s.deposit dst ks).objects = s.objects := by
  cases dst <;> rfl

@[simp] theorem objects_saveBrand (s : KState) (c : TableIndex) (brand : Brand) :
    (s.saveBrand c brand).objects = s.objects := rfl

@[simp] theorem objects_saveIrqBrand (s : KState) (i : TableIndex) (brand : Brand) :
    (s.saveIrqBrand i brand).objects = s.objects := rfl

@[simp] theorem objects_advanceReply (s : KState) (c : TableIndex) :
    (s.advanceReply c).objects = s.objects := rfl

theorem sameSeats_deposit (s : KState) (dst : KeysRef) (ks : Keys) :
    SameSeats s (s.deposit dst ks) := by
  cases dst with
  | frame => exact ⟨rfl, rfl, rfl, fun _ => .refl _, fun _ => .refl _⟩
  | bank c map =>
    simp only [deposit]
    exact s.sameSeats_updateContext c ⟨rfl, rfl, rfl, rfl⟩

theorem sameSeats_record (s : KState) (ev : Event) : SameSeats s (s.record ev) :=
  ⟨rfl, rfl, rfl, fun _ => .refl _, fun _ => .refl _⟩

theorem SameSeats.trans {s s' s'' : KState} (h : SameSeats s s') (h' : SameSeats s' s'') :
    SameSeats s s'' where
  count := h'.count.trans h.count
  kind := h'.kind.trans h.kind
  queues := h'.queues.trans h.queues
  context c :=
    ⟨(h'.context c).state.trans (h.context c).state,
      (h'.context c).ctxItem.trans (h.context c).ctxItem,
      (h'.context c).senderItem.trans (h.context c).senderItem,
      (h'.context c).priority.trans (h.context c).priority⟩
  interrupt i :=
    ⟨(h'.interrupt i).senderItem.trans (h.interrupt i).senderItem,
      (h'.interrupt i).priority.trans (h.interrupt i).priority⟩

theorem sameSeats_advanceReply (s : KState) (c : TableIndex) : SameSeats s (s.advanceReply c) :=
  (s.sameSeats_updateContext c ⟨rfl, rfl, rfl, rfl⟩).trans (sameSeats_record _ _)

end KState

/-! ## Acts -/

/-- Which keys the kernel may be holding, which objects it may touch, and whether Contexts
may block and receive. -/
structure Authority where
  key : KState → Key → Prop
  obj : TableIndex → Prop
  blocks : Prop

/-- The destination belongs to an object within the authority. -/
def Authority.into (A : Authority) : KeysRef → Prop
  | .frame => True
  | .bank c _ => A.obj c

/-- Events recorded by message passing itself. -/
def Event.isPassing : Event → Prop
  | sent .. | delivered .. | consulted .. | excepted .. => True
  | _ => False

open KState in
/-- One act of message passing. -/
inductive Act (A : Authority) (s : KState) : KState → Prop where
  /-- A Context's save area is written. -/
  | save (c : TableIndex) (f : SavedRegisters → SavedRegisters) :
      A.obj c → Act A s (s.updateContext c fun b => { b with save := f b.save })
  /-- A stored key that failed the generation check is nulled. -/
  | drop (loc : KeyLoc) :
      A.obj loc.owner → (∀ c i, loc ≠ .regionReg c i) → s.isLive (s.keyAt loc) = false →
      Act A s (s.setKeyAt loc s.nullKey)
  | note (ev : Event) : ev.isPassing → Act A s (s.record ev)
  /-- Keys arrive. -/
  | deposit (dst : KeysRef) (ks : Keys) :
      A.into dst → (∀ i, A.key s (ks i)) → Act A s (s.deposit dst ks)
  /-- A caller's keys arrive, its reply key among them, and it starts to await the reply. -/
  | call (c : TableIndex) (dst : KeysRef) :
      A.blocks → A.obj c → A.into dst → (∀ map, dst ≠ .bank c map) → s.Sits c .runnable →
      (s.context c).save.message.desc.isCall = true →
      Act A s (((s.deposit dst (s.sentKeys c)).reseat c .awaiting).pend)
  /-- A Context waiting at a Gate is woken. -/
  | rouse (c g : TableIndex) (seat : Seat) :
      A.obj c → A.obj g → s.Sits c seat → seat.gate = some g →
      Act A s (s.reseat c .runnable).pend
  /-- A reply key is honoured. -/
  | answer (c : TableIndex) (b : Brand) :
      A.obj c → s.Sits c .awaiting → b = (s.context c).expectedReplyBrand → b.isTop = true →
      A.key s (s.filled c b) →
      Act A s ((((s.advanceReply c).record (.answered c b)).reseat c .runnable).pend)
  /-- An Interrupt's message is taken. -/
  | takeIrq (i g : TableIndex) :
      A.obj i → A.obj g → s.Queued i (some g) → Act A s (s.requeue i none)
  | blockInReceive (c g : TableIndex) :
      A.blocks → A.obj c → A.obj g → s.Sits c .runnable → s.kind g = .gate →
      Act A s (s.reseat c (.receiving g)).pend
  | blockInReply (c : TableIndex) :
      A.blocks → A.obj c → s.Sits c .runnable → Act A s (s.reseat c .awaiting).pend
  | blockInSend (c g : TableIndex) (brand : Brand) :
      A.blocks → A.obj c → A.obj g → s.Sits c .runnable → s.kind g = .gate →
      Act A s ((s.saveBrand c brand).reseat c (.sending g)).pend
  | blockIrq (i g : TableIndex) (brand : Brand) :
      A.obj i → A.obj g → s.Queued i none → s.kind i = .interrupt → s.kind g = .gate →
      Act A s ((s.saveIrqBrand i brand).requeue i (some (.senders g)))

/-- A sequence of acts. -/
abbrev Acts (A : Authority) : KState → KState → Prop := Relation.ReflTransGen (Act A)

namespace Act

variable {A : Authority} {s s' : KState}

open KState

theorem objects (h : Act A s s') : s'.objects = s.objects := by
  cases h <;> simp

theorem wellFormed (h : Act A s s') (hs : s.WellFormed) : s'.WellFormed := by
  cases h with
  | save c f => exact hs.of_sameSeats (s.sameSeats_updateContext c ⟨rfl, rfl, rfl, rfl⟩)
  | drop loc => exact hs.of_sameSeats (s.sameSeats_setKeyAt loc _)
  | note ev => exact hs.of_sameSeats (s.sameSeats_record ev)
  | deposit dst ks => exact hs.of_sameSeats (s.sameSeats_deposit dst ks)
  | call c dst _ _ _ _ hc =>
    have hsame := s.sameSeats_deposit dst (s.sentKeys c)
    exact ((hs.of_sameSeats hsame).reseat c _ (fun _ => hsame.kind ▸ hc.kind_of_runnable)
      (by simp [Seat.gate])).of_sameSeats (sameSeats_pend _)
  | rouse c g seat _ _ hc hg =>
    have hkind : s.kind c = .context := hc.kind (by rintro rfl; simp [Seat.gate] at hg)
    exact (hs.reseat c _ (fun _ => hkind) (by simp [Seat.gate])).of_sameSeats (sameSeats_pend _)
  | answer c b _ hc =>
    have hsame := (s.sameSeats_advanceReply c).trans (sameSeats_record _ (.answered c b))
    exact ((hs.of_sameSeats hsame).reseat c _ (fun _ => hsame.kind ▸ hc.kind (by simp))
      (by simp [Seat.gate])).of_sameSeats (sameSeats_pend _)
  | takeIrq i g => exact hs.requeue i (g := none) (by simp) (by simp)
  | blockInReceive c g _ _ _ hc hg =>
    exact (hs.reseat c _ (fun _ => hc.kind_of_runnable) (by simpa [Seat.gate] using hg)).of_sameSeats
      (sameSeats_pend _)
  | blockInReply c _ _ hc =>
    exact (hs.reseat c _ (fun _ => hc.kind_of_runnable) (by simp [Seat.gate])).of_sameSeats
      (sameSeats_pend _)
  | blockInSend c g brand _ _ _ hc hg =>
    have hsame : SameSeats s (s.saveBrand c brand) :=
      s.sameSeats_updateContext c ⟨rfl, rfl, rfl, rfl⟩
    exact ((hs.of_sameSeats hsame).reseat c _ (fun _ => hc.kind_of_runnable)
      (by rintro _ ⟨⟩; exact hg)).of_sameSeats (sameSeats_pend _)
  | blockIrq i g brand _ _ _ hi hg =>
    have hsame : SameSeats s (s.saveIrqBrand i brand) := s.sameSeats_updateInterrupt i ⟨rfl, rfl⟩
    exact (hs.of_sameSeats hsame).requeue i (g := some g) (fun _ => hi)
      (by rintro _ ⟨⟩; exact hg)

end Act

namespace Acts

variable {A : Authority} {s s' : KState}

theorem objects (h : Acts A s s') : s'.objects = s.objects := by
  induction h with
  | refl => rfl
  | tail _ hact ih => exact hact.objects.trans ih

theorem wellFormed (h : Acts A s s') (hs : s.WellFormed) : s'.WellFormed := by
  induction h with
  | refl => exact hs
  | tail _ hact ih => exact hact.wellFormed ih

end Acts

/-! ## Guarded invariants -/

open KState in
/-- An invariant under which the keys and objects that message passing comes across stay
within an authority. -/
structure Guarded (A : Authority) (I : KState → Prop) : Prop where
  null : ∀ {s}, I s → A.key s s.nullKey
  /-- Keys stored in an object within the authority. -/
  held : ∀ {s} loc, I s → A.obj loc.owner → A.key s (s.keyAt loc)
  /-- The Gates that live keys designate. -/
  gate : ∀ {s k e}, s.WellFormed → I s → A.key s k → s.isLive k = true → k.ptr = some e →
    s.kind e = .gate → A.obj e
  /-- Who waits at a Gate within the authority. -/
  waiting : ∀ {s c g seat}, s.WellFormed → I s → A.obj g → s.Sits c seat → seat.gate = some g →
    A.obj c
  queued : ∀ {s i g}, s.WellFormed → I s → A.obj g → s.Queued i (some g) → A.obj i
  /-- The key that an Interrupt's message carries. -/
  interrupt : ∀ {s i}, s.WellFormed → I s → A.obj i → s.kind i = .interrupt →
    A.key s (s.filled i 0#64)
  /-- The reply key of a caller that has just blocked. -/
  reply : ∀ {s c dst}, A.blocks → s.WellFormed → I s → A.obj c → s.Sits c .runnable →
    A.key (((s.deposit dst (s.sentKeys c)).reseat c .awaiting).pend)
      (s.filled c (s.context c).expectedReplyBrand)
  act : ∀ {s s'}, s.WellFormed → I s → Act A s s' → I s'
  stable : ∀ {s s' k}, s.WellFormed → I s → Act A s s' → A.key s k → A.key s' k

/-- An authority that is closed under following keys to objects of any kind. -/
structure Confined (A : Authority) (I : KState → Prop) : Prop extends Guarded A I where
  deref : ∀ {s k e}, s.WellFormed → I s → A.key s k → s.isLive k = true → k.ptr = some e →
    A.obj e

namespace Guarded

variable {A : Authority} {I : KState → Prop} {s s' : KState}

theorem acts (G : Guarded A I) (hs : s.WellFormed) (hI : I s) (h : Acts A s s') : I s' := by
  induction h with
  | refl => exact hI
  | tail hacts hact ih => exact G.act (Acts.wellFormed hacts hs) ih hact

theorem stable_acts (G : Guarded A I) (hs : s.WellFormed) (hI : I s) (h : Acts A s s') {k : Key}
    (hk : A.key s k) : A.key s' k := by
  induction h with
  | refl => exact hk
  | tail hacts hact ih => exact G.stable (Acts.wellFormed hacts hs) (G.acts hs hI hacts) hact ih

/-- A key designates Null, or it is live and designates its target. -/
theorem target_null_or_live (hs : s.WellFormed) (k : Key) :
    s.kind (s.target k) = .null ∨ s.isLive k = true ∧ k.ptr = some (s.target k) := by
  cases hlive : s.isLive k with
  | false =>
    left
    simpa [KState.target, KState.resolve, hlive, KState.nullKey, KState.filled] using hs.null
  | true =>
    cases hptr : k.ptr with
    | none => simp [KState.isLive, hptr] at hlive
    | some e => simp [KState.target, KState.resolve, hlive, hptr]

/-- A Gate behind a key within the authority is within it too. -/
theorem target (G : Guarded A I) (hs : s.WellFormed) (hI : I s) {k : Key} (hk : A.key s k)
    (hkind : s.kind (s.target k) = .gate) : A.obj (s.target k) := by
  rcases target_null_or_live hs k with hnull | ⟨hlive, hptr⟩
  · simp [hkind] at hnull
  · exact G.gate hs hI hk hlive hptr hkind

end Guarded

/-- The object behind a key within the authority is within it too, or is Null. -/
theorem Confined.object {A : Authority} {I : KState → Prop} {s : KState} (C : Confined A I)
    (hs : s.WellFormed) (hI : I s) {k : Key} (hk : A.key s k) :
    s.kind (s.target k) = .null ∨ A.obj (s.target k) :=
  (Guarded.target_null_or_live hs k).imp_right fun h => C.deref hs hI hk h.1 h.2

end BrittleKernel
