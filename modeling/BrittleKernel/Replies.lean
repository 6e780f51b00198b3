import Mathlib
import BrittleKernel.Generations

/-!
# Reply Keys

A Context numbers its calls by its expected reply brand, which moves on whenever a reply is
honoured or the wait is called off.  A key that matches the brand belongs to the call that the
Context is waiting for, so that each call is answered at most once and old reply keys do nothing.
-/

namespace BrittleKernel

open Hoare KState

/-! ## The brands of replies -/

namespace Brand

theorem toNat_or_topMask (b : Brand) : (b ||| topMask).toNat = 2 ^ 63 + b.toNat % 2 ^ 63 := by
  have hmask : topMask.toNat = 2 ^ 63 * 1 := by decide
  have hrest : b.toNat % 2 ^ 63 < 2 ^ 63 := Nat.mod_lt _ (by decide)
  have hsplit := Nat.div_add_mod b.toNat (2 ^ 63)
  have hhigh : b.toNat / 2 ^ 63 = 0 ∨ b.toNat / 2 ^ 63 = 1 := by
    have := b.isLt
    omega
  rw [BitVec.toNat_or, hmask]
  rcases hhigh with h | h
  · rw [h, Nat.mul_zero, Nat.zero_add] at hsplit
    rw [← hsplit, Nat.mod_mod, Nat.lor_comm, ← Nat.two_pow_add_eq_or_of_lt hrest]
    omega
  · rw [h] at hsplit
    have hbits := Nat.two_pow_add_eq_or_of_lt hrest 1
    rw [← hsplit, hbits, Nat.lor_comm, ← Nat.lor_assoc, Nat.or_self, ← hbits]
    omega

/-- The brand that a Context expects after `n` advances. -/
def reply (n : Nat) : Brand := (stamp 63 n).setWidth 64 ||| topMask

variable {m n : Nat}

theorem toNat_reply (n : Nat) : (reply n).toNat = 2 ^ 63 + n % 2 ^ 63 := by
  rw [reply, toNat_or_topMask, BitVec.toNat_setWidth, stamp, BitVec.toNat_ofNat]
  omega

theorem isTop_reply (n : Nat) : (reply n).isTop = true := by
  have hrest : n % 2 ^ 63 < 2 ^ 63 := Nat.mod_lt _ (by decide)
  rw [isTop, BitVec.getLsbD, Nat.testBit_eq_decide_div_mod_eq, toNat_reply]
  simp only [decide_eq_true_eq]
  omega

theorem reply_zero : reply 0 = topMask := by decide

/-- `advance_reply_brand` goes from one to the next. -/
theorem reply_succ (n : Nat) : (reply n + 1#64) ||| topMask = reply (n + 1) := by
  apply BitVec.eq_of_toNat_eq
  rw [toNat_or_topMask, BitVec.toNat_add, toNat_reply, toNat_reply]
  show 2 ^ 63 + (2 ^ 63 + n % 2 ^ 63 + 1) % 2 ^ 64 % 2 ^ 63 = _
  omega

theorem reply_inj (hm : m < 2 ^ 63) (hn : n < 2 ^ 63) (heq : reply m = reply n) : m = n := by
  have := congrArg BitVec.toNat heq
  rw [toNat_reply, toNat_reply] at this
  omega

end Brand

/-! ## Counting replies -/

/-- Whether the event is an advance of the Context's reply brand. -/
def Event.advancesReply (c : TableIndex) : Event → Bool
  | .replyBrandAdvanced x => x == c
  | _ => false

namespace KState

variable {s s' : KState}

/-- How often a Context's reply brand has moved. -/
def replies (s : KState) (c : TableIndex) : Nat := s.history.countP (Event.advancesReply c)

theorem replies_record (s : KState) (ev : Event) (c : TableIndex) :
    (s.record ev).replies c = s.replies c + if ev.advancesReply c then 1 else 0 :=
  List.countP_cons

theorem replies_advanceReply (s : KState) (x c : TableIndex) :
    (s.advanceReply x).replies c = s.replies c + if x = c then 1 else 0 := by
  refine (replies_record _ (.replyBrandAdvanced x) c).trans ?_
  simp [Event.advancesReply, replies]

/-- The reply brand is the number of advances, as far as 63 bits keep it. -/
structure Tallied (s : KState) : Prop where
  expected : ∀ c, s.kind c = .context → (s.context c).expectedReplyBrand = Brand.reply (s.replies c)
  fresh : ∀ c, s.kind c ≠ .context → s.replies c = 0

/-- No reply brand moves. -/
structure SameReplies (s s' : KState) : Prop where
  replies : ∀ c, s'.replies c = s.replies c
  expected : ∀ c, (s'.context c).expectedReplyBrand = (s.context c).expectedReplyBrand

theorem SameReplies.refl (s : KState) : SameReplies s s := ⟨fun _ => rfl, fun _ => rfl⟩

theorem SameReplies.trans {s'' : KState} (h : SameReplies s s') (h' : SameReplies s' s'') :
    SameReplies s s'' :=
  ⟨fun c => (h'.replies c).trans (h.replies c), fun c => (h'.expected c).trans (h.expected c)⟩

theorem SameReplies.of_history (hhistory : s'.history = s.history)
    (hexpected : ∀ c, (s'.context c).expectedReplyBrand = (s.context c).expectedReplyBrand) :
    SameReplies s s' :=
  ⟨fun c => by rw [KState.replies, hhistory, KState.replies], hexpected⟩

theorem SameReplies.record (s : KState) {ev : Event} (h : ∀ c, ev.advancesReply c = false) :
    SameReplies s (s.record ev) :=
  ⟨fun c => by simp [replies_record, h c], fun _ => rfl⟩

theorem sameReplies_updateContext (s : KState) (c : TableIndex) {f : Context → Context}
    (hf : (f (s.context c)).expectedReplyBrand = (s.context c).expectedReplyBrand) :
    SameReplies s (s.updateContext c f) := by
  refine .of_history rfl fun x => ?_
  by_cases hx : x = c
  · subst hx
    simpa using hf
  · simp [hx]

theorem sameReplies_setKeyAt (s : KState) (loc : KeyLoc) (k : Key) :
    SameReplies s (s.setKeyAt loc k) := by
  cases loc with
  | keyReg c i | regionReg c i =>
    unfold setKeyAt
    exact sameReplies_updateContext s c rfl
  | target i => exact .of_history rfl fun _ => rfl

theorem sameReplies_deposit (s : KState) (dst : KeysRef) (ks : Keys) :
    SameReplies s (s.deposit dst ks) := by
  cases dst with
  | frame => exact .refl s
  | bank c map =>
    unfold deposit
    exact sameReplies_updateContext s c rfl

theorem sameReplies_seat (s : KState) (c : TableIndex) (seat : Seat) :
    SameReplies s (s.reseat c seat) := by
  refine .of_history rfl fun x => ?_
  by_cases hx : x = c
  · subst hx
    simp [reseat]
  · simp [reseat, hx]

theorem sameReplies_reseat (s : KState) (c : TableIndex) (seat : Seat) :
    SameReplies s (s.reseat c seat).pend :=
  (sameReplies_seat s c seat).trans (.of_history rfl fun _ => rfl)

theorem Tallied.of_sameReplies (hs : s.Tallied) (h : SameReplies s s') (hkind : s'.kind = s.kind) :
    s'.Tallied where
  expected c hc := by
    rw [h.expected, h.replies]
    exact hs.expected c (hkind ▸ hc)
  fresh c hc := by
    rw [h.replies]
    exact hs.fresh c (hkind ▸ hc)

theorem Tallied.advanceReply (hs : s.Tallied) {c : TableIndex} (hc : s.kind c = .context) :
    (s.advanceReply c).Tallied where
  expected x hx := by
    rw [replies_advanceReply]
    by_cases hxc : x = c
    · subst hxc
      rw [if_pos rfl, ← Brand.reply_succ, ← hs.expected x hc]
      simp [KState.advanceReply]
    · rw [if_neg (Ne.symm hxc), Nat.add_zero, ← hs.expected x hx]
      simp [KState.advanceReply, hxc]
  fresh x hx := by
    have hxc : c ≠ x := by
      rintro rfl
      exact hx hc
    rw [replies_advanceReply, if_neg hxc]
    exact hs.fresh x hx

end KState

/-- Message passing advances a reply brand only where a reply is honoured. -/
theorem Act.tallied {A : Authority} {s s' : KState} (h : Act A s s') (hs : s.Tallied) : s'.Tallied := by
  have hkind := kind_of_objects h.objects
  cases h with
  | save c f => exact hs.of_sameReplies (sameReplies_updateContext s c rfl) hkind
  | drop loc => exact hs.of_sameReplies (sameReplies_setKeyAt s loc _) hkind
  | note ev hev =>
    refine hs.of_sameReplies (.record s fun c => ?_) hkind
    cases ev <;> first | rfl | cases hev
  | deposit dst ks => exact hs.of_sameReplies (sameReplies_deposit s dst ks) hkind
  | call c dst =>
    exact hs.of_sameReplies ((sameReplies_deposit s dst _).trans (sameReplies_reseat _ c _)) hkind
  | answer c b _ hc =>
    have hadvanced := hs.advanceReply (hc.kind (by simp))
    have hhonoured : SameReplies (s.advanceReply c)
        ((((s.advanceReply c).record (.answered c b)).reseat c .runnable).pend) :=
      (SameReplies.record _ fun _ => rfl).trans (sameReplies_reseat _ c _)
    exact hadvanced.of_sameReplies hhonoured hkind
  | rouse c | blockInReceive c | blockInReply c =>
    exact hs.of_sameReplies (sameReplies_reseat s c _) hkind
  | blockInSend c g brand =>
    have hsaved : SameReplies s (s.saveBrand c brand) := sameReplies_updateContext s c rfl
    exact hs.of_sameReplies (hsaved.trans (sameReplies_reseat _ c _)) hkind
  | takeIrq | blockIrq => exact hs.of_sameReplies (.of_history rfl fun _ => rfl) hkind

section

variable {cfg : Config} {e : TableIndex} {brand : Brand} {m : Message} {k : Keys} {s s' : KState}
  {rs : ReplySender}

theorem KState.sameReplies_bump (s : KState) (x : TableIndex) : SameReplies s (s.bump x) :=
  ⟨fun c => (replies_record _ (.generationAdvanced x (s.generation x)) c).trans rfl, fun _ => rfl⟩

theorem KState.sameReplies_loadMpu (s : KState) (c : TableIndex) : SameReplies s (s.loadMpu c) := by
  refine .of_history rfl fun x => ?_
  by_cases hx : x = c
  · subst hx
    simp [loadMpu]
  · simp [loadMpu, hx]

theorem KState.sameReplies_buildMemory (s : KState) (x : TableIndex) (base size attributes : Word)
    (parent : Option TableIndex) : SameReplies s (s.buildMemory x base size attributes parent) :=
  .of_history (by simp) fun _ => by simp

theorem KState.sameReplies_calledOff (s : KState) (c : TableIndex) : SameReplies s (s.calledOff c) :=
  (sameReplies_updateContext s c rfl).trans (.record _ fun _ => rfl)

/-- An entry may be given to a new object that is no Context. -/
theorem KState.Tallied.rebuild (hs : s.Tallied) (h : SameReplies s s')
    (hkind : ∀ c, s'.kind c = s.kind c ∨ s.kind c ≠ .context ∧ s'.kind c ≠ .context) : s'.Tallied where
  expected c hc := by
    rw [h.expected, h.replies]
    rcases hkind c with hsame | ⟨-, hother⟩
    · exact hs.expected c (hsame ▸ hc)
    · exact absurd hc hother
  fresh c hc := by
    rw [h.replies]
    rcases hkind c with hsame | ⟨hother, -⟩
    · exact hs.fresh c (hsame ▸ hc)
    · exact hs.fresh c hother

/-- A new Context starts at the first reply brand. -/
theorem KState.Tallied.buildContext (hs : s.Tallied) {x : TableIndex} (hx : s.kind x ≠ .context)
    (body argument : Word) : (s.buildObject .context x body argument).Tallied where
  expected c hc := by
    have hreplies : (s.buildObject .context x body argument).replies c = s.replies c := rfl
    rw [hreplies]
    by_cases hcx : c = x
    · subst hcx
      rw [hs.fresh c hx, Brand.reply_zero]
      simp [buildObject]
    · have hkind : s.kind c = .context := by simpa [buildObject, hcx] using hc
      rw [← hs.expected c hkind]
      simp [buildObject, hcx]
  fresh c hc := by
    have hcx : c ≠ x := by
      rintro rfl
      simp [buildObject] at hc
    have hkind : s.kind c ≠ .context := by simpa [buildObject, hcx] using hc
    exact hs.fresh c hkind

/-- Methods number calls alike: Make Runnable and Invalidate advance the brand of the Context
that they wake or stop. -/
theorem Effect.tallied (h : Effect cfg e brand m k s rs s') (hs : s.Tallied) : s'.Tallied := by
  cases h with
  | writeKey | setTarget =>
    exact hs.of_sameReplies (sameReplies_setKeyAt _ _ _) (kind_of_objects (objects_setKeyAt _ _ _))
  | writeRegion r =>
    have hstored : (s.setKeyAt (.regionReg e r) (k 1)).Tallied :=
      hs.of_sameReplies (sameReplies_setKeyAt _ _ _) (kind_of_objects (objects_setKeyAt _ _ _))
    split
    · exact hstored.of_sameReplies (sameReplies_loadMpu _ _) rfl
    · exact hstored
  | writeSave => exact hs.of_sameReplies (sameReplies_updateContext s e rfl) rfl
  | callOff seat g =>
    exact hs.of_sameReplies ((sameReplies_reseat s e _).trans (sameReplies_calledOff _ e)) rfl
  | callOffReply _ hsits =>
    have hadvanced := hs.advanceReply (hsits.kind (by simp))
    exact hadvanced.of_sameReplies ((sameReplies_reseat _ e _).trans (sameReplies_calledOff _ e)) rfl
  | start => exact hs.of_sameReplies (sameReplies_reseat s e _) rfl
  | setPriority seat =>
    have hset : SameReplies s (s.updateContext e fun b => { b with priority := m.d0.toNat }) :=
      sameReplies_updateContext s e rfl
    exact (hs.of_sameReplies hset rfl).of_sameReplies (sameReplies_seat _ e seat) rfl
  | mint | noInvalidate => exact hs.of_sameReplies (.record s fun _ => rfl) rfl
  | invalidate =>
    have hrecorded : (s.record (.invalidateRequested m.d0 (m.d1 != 0#32))).Tallied :=
      hs.of_sameReplies (.record s fun _ => rfl) rfl
    refine Tallied.of_sameReplies ?_ (sameReplies_bump _ _) rfl
    unfold invalidationHook
    split
    · exact hrecorded.of_sameReplies (sameReplies_loadMpu _ _) rfl
    next hx =>
      have hstopped := (hrecorded.of_sameReplies (sameReplies_reseat _ m.d0.toNat .stopped)
        rfl).advanceReply hx
      dsimp only
      split
      · exact hstopped.of_sameReplies (.of_history rfl fun _ => rfl) rfl
      · exact hstopped.of_sameReplies (.of_history rfl fun _ => rfl) rfl
    · exact hrecorded.of_sameReplies (.of_history rfl fun _ => rfl) rfl
    · exact hrecorded
  | split slot hok =>
    refine hs.rebuild ?_ fun c => ?_
    · unfold splitMemory
      extract_lets _ top bottom
      have htop : SameReplies s top := (sameReplies_bump s slot).trans (sameReplies_buildMemory _ _ _ _ _ _)
      have horphan : SameReplies top (top.orphan e) := .of_history (by simp) fun _ => by simp
      have hbottom : SameReplies s bottom := ((htop.trans horphan).trans (sameReplies_bump _ e)).trans
        (sameReplies_buildMemory _ _ _ _ _ _)
      exact hbottom.trans (sameReplies_loadMpu _ _)
    · by_cases hslot : c = slot
      · subst hslot
        refine .inr ⟨by simp [hok.slot], ?_⟩
        rw [splitMemory, kind_loadMpu, kind_buildMemory]
        by_cases hce : c = e <;> simp [hce]
      · by_cases hce : c = e
        · subst hce
          exact .inr (by simp [splitMemory, hok.memory])
        · exact .inl (by simp [splitMemory, hslot, hce])
  | makeChild slot hok =>
    refine hs.rebuild ((sameReplies_bump s slot).trans (sameReplies_buildMemory _ _ _ _ _ _)) fun c => ?_
    by_cases hslot : c = slot
    · subst hslot
      exact .inr (by simp [makeChildMemory, hok.slot])
    · exact .inl (by simp [makeChildMemory, hslot])
  | become t hok =>
    have hbumped : (s.bump e).Tallied := hs.of_sameReplies (sameReplies_bump s e) rfl
    have hkind : (s.bump e).kind e = .memory := hok.memory
    have hbuilt : ((s.bump e).buildObject t e (s.memory e).base m.d1).Tallied := by
      cases t with
      | context => exact hbumped.buildContext (by simp [hkind]) _ _
      | gate | interrupt =>
        refine hbumped.rebuild (.of_history rfl fun _ => rfl) fun c => ?_
        by_cases hce : c = e
        · subst hce
          exact .inr (by simp [buildObject, hok.memory])
        · exact .inl (by simp [buildObject, hce])
    have hdonated : (((s.bump e).buildObject t e (s.memory e).base m.d1).record
        (.donated e (s.memory e).base (s.memory e).size)).Tallied :=
      hbuilt.of_sameReplies (.record _ fun _ => rfl) rfl
    exact hdonated.of_sameReplies (sameReplies_loadMpu _ _) rfl
  | _ => exact hs.of_sameReplies (.of_history rfl fun _ => rfl) rfl

end

end BrittleKernel
