import BrittleKernel.Growth
import BrittleKernel.Rendezvous
import BrittleKernel.Replies
import BrittleKernel.Turns

/-!
# One-Shot Reply Keys

Under which conditions a live key that matches a Context's expected reply brand means that the
Context awaits this very reply: no generation rolls over, nobody mints keys that look like reply
keys, and the reply brand has not gone around.
-/

namespace BrittleKernel

open Hoare KState

/-! ## What a reply key says -/

/-- Whether Mint Key made a key to a Context that looks like a reply key. -/
def Event.forges : Event → Bool
  | .minted _ .context b => b.isTop
  | _ => false

namespace KState

variable {s s' : KState}

/-- No generation rolled over, and nobody forged a reply key. -/
structure Quiet (s : KState) : Prop where
  few : ∀ e, s.advances e < 2 ^ 32
  unforged : ∀ ev ∈ s.history, ev.forges = false

/-- A live key that looks like a reply key to a Context was made for one of its calls so far; if it
is the last one, the Context awaits the reply. -/
def Fit (s : KState) (k : Key) : Prop :=
  s.isLive k = true → ∀ c, k.ptr = some c → s.kind c = .context → k.brand.isTop = true →
    ∃ n ≤ s.replies c, k.brand = Brand.reply n ∧ (n = s.replies c → s.Sits c .awaiting)

theorem fit_of_brand {k : Key} (h : k.brand.isTop = false) : s.Fit k := by
  intro _ c _ _ htop
  rw [h] at htop
  cases htop

theorem fit_of_kind {e : TableIndex} (h : s.kind e ≠ .context) (b : Brand) : s.Fit (s.filled e b) := by
  rintro _ c ⟨⟩ hkind
  exact absurd hkind h

theorem replies_le (h : s.history <:+ s'.history) (c : TableIndex) : s.replies c ≤ s'.replies c :=
  h.sublist.countP_le

theorem Quiet.before (hs : s'.Quiet) (hhistory : s.history <:+ s'.history) : s.Quiet where
  few e := (hhistory.sublist.countP_le (p := Event.advances e)).trans_lt (hs.few e)
  unforged ev hev := hs.unforged ev (hhistory.subset hev)

/-- Where keys stay live and wait for the same calls. -/
theorem Fit.mono {k : Key} (hk : s.Fit k) (hhistory : s.history <:+ s'.history)
    (hlive : s'.isLive k = true → s.isLive k = true ∧ ∀ c, k.ptr = some c → s'.kind c = s.kind c)
    (hawaiting : ∀ c, s.Sits c .awaiting → s'.Sits c .awaiting ∨ s.replies c < s'.replies c) :
    s'.Fit k := by
  intro hl c hptr hkind htop
  obtain ⟨hbefore, hsame⟩ := hlive hl
  obtain ⟨n, hn, hbrand, hlast⟩ := hk hbefore c hptr (hsame c hptr ▸ hkind) htop
  have hle := replies_le hhistory c
  refine ⟨n, hn.trans hle, hbrand, fun heq => ?_⟩
  -- The last call is still the same one.
  rcases hawaiting c (hlast (le_antisymm hn (heq ▸ hle))) with hsits | hmoved
  · exact hsits
  · omega

end KState

/-! ## Message passing -/

section

variable {A : Authority} {s s' : KState}

/-- A Context stops awaiting a reply when one is honoured. -/
theorem Act.awaiting (h : Act A s s') {c : TableIndex} (hc : s.Sits c .awaiting) :
    s'.Sits c .awaiting ∨ s.replies c < s'.replies c := by
  have hmove : ∀ {t : KState} {x : TableIndex} {seat seat' : Seat}, SameSeats s t →
      s.Sits x seat → seat ≠ .awaiting → ((t.reseat x seat').pend).Sits c .awaiting := by
    intro t x seat seat' hsame hx hne
    refine (sameSeats_pend _).sits (sits_reseat_of_ne ?_ _ (hsame.sits hc))
    rintro rfl
    exact hne (hx.unique hc)
  cases h with
  | save x f => exact .inl ((s.sameSeats_updateContext x ⟨rfl, rfl, rfl, rfl⟩).sits hc)
  | drop loc => exact .inl ((s.sameSeats_setKeyAt loc _).sits hc)
  | note ev => exact .inl ((s.sameSeats_record ev).sits hc)
  | deposit dst ks => exact .inl ((s.sameSeats_deposit dst ks).sits hc)
  | call x dst _ _ _ _ hx => exact .inl (hmove (s.sameSeats_deposit dst _) hx (by simp))
  | rouse x g seat _ _ hx hg =>
    exact .inl (hmove ⟨rfl, rfl, rfl, fun _ => .refl _, fun _ => .refl _⟩ hx
      (by rintro rfl; simp [Seat.gate] at hg))
  | answer x b _ hx =>
    by_cases hcx : x = c
    · subst hcx
      right
      have hreplies : ((((s.advanceReply x).record (.answered x b)).reseat x .runnable).pend).replies x =
          (s.advanceReply x).replies x := rfl
      rw [hreplies, replies_advanceReply, if_pos rfl]
      exact Nat.lt_succ_self _
    · left
      have hsame := (s.sameSeats_advanceReply x).trans (sameSeats_record _ (.answered x b))
      exact (sameSeats_pend _).sits (sits_reseat_of_ne (Ne.symm hcx) _ (hsame.sits hc))
  | takeIrq | blockIrq => exact .inl ⟨hc.body, hc.kind, hc.gate⟩
  | blockInReceive x g _ _ _ hx | blockInReply x _ _ hx =>
    exact .inl (hmove ⟨rfl, rfl, rfl, fun _ => .refl _, fun _ => .refl _⟩ hx (by simp))
  | blockInSend x g brand _ _ _ hx =>
    exact .inl (hmove (s.sameSeats_updateContext x ⟨rfl, rfl, rfl, rfl⟩) hx (by simp))

theorem Act.fit (h : Act A s s') {k : Key} (hk : s.Fit k) : s'.Fit k :=
  hk.mono h.history (fun hlive => ⟨isLive_of_objects h.objects k ▸ hlive, fun c _ =>
    congrFun (kind_of_objects h.objects) c⟩) fun _ => h.awaiting

end

/-! ## Methods -/

section

variable {cfg : Config} {e : TableIndex} {brand : Brand} {m : Message} {k : Keys} {s s' : KState}
  {rs : ReplySender}

theorem Effect.grows (h : Effect cfg e brand m k s rs s') : s.history <:+ s'.history := by
  obtain ⟨evs, hhistory, -⟩ := h.history
  exact hhistory ▸ List.suffix_append evs s.history

/-- A request for Make Runnable does nothing else. -/
theorem Effect.of_makeRunnable (h : Effect cfg e brand m k s rs s') (he : s.Sits e .awaiting)
    (hm : ContextMethod.ofSelector m.desc.getSelector = some .makeRunnable) :
    s' = s ∨ s' = ((s.advanceReply e).reseat e .runnable).pend.calledOff e := by
  have hkind := he.kind (by simp)
  cases h with
  | callOffReply => exact .inr rfl
  | callOff seat g _ hseat hg =>
    obtain rfl := he.unique hseat
    simp [Seat.gate] at hg
  | start _ _ hseat => cases he.unique hseat
  | writeSave _ _ _ hm' hmethod =>
    rw [hm, Option.some.injEq] at hm'
    simp [← hm'] at hmethod
  | split _ hok => simp [hok.memory] at hkind
  | makeChild _ hok => simp [hok.memory] at hkind
  | become _ hok => simp [hok.memory] at hkind
  | _ => simp_all

/-- A request for Invalidate does nothing else. -/
theorem Effect.of_invalidate (h : Effect cfg e brand m k s rs s') (he : s.kind e = .objectTable)
    (hm : ObjectTableMethod.ofSelector m.desc.getSelector = some .invalidate) :
    s' = s ∨ s' = s.record (.invalidateRequested m.d0 (m.d1 != 0#32)) ∨
      s' = (s.record (.invalidateRequested m.d0 (m.d1 != 0#32))).invalidated m.d0.toNat := by
  cases h with
  | noInvalidate => exact .inr (.inl rfl)
  | invalidate => exact .inr (.inr rfl)
  | callOff seat g _ hseat hg =>
    have hkind := hseat.kind (by rintro rfl; simp [Seat.gate] at hg)
    simp [he] at hkind
  | callOffReply _ hseat =>
    have hkind := hseat.kind (by simp)
    simp [he] at hkind
  | split _ hok => simp [hok.memory] at he
  | makeChild _ hok => simp [hok.memory] at he
  | become _ hok => simp [hok.memory] at he
  | _ => simp_all

theorem KState.replies_invalidationHook {x : TableIndex} (hx : s.kind x = .context) :
    (s.invalidationHook x).replies x = s.replies x + 1 := by
  have hstopped : ((s.reseat x .stopped).advanceReply x).replies x = s.replies x + 1 := by
    rw [replies_advanceReply, if_pos rfl, (sameReplies_seat s x _).replies]
  unfold invalidationHook
  simp only [hx]
  split
  · exact hstopped
  · exact hstopped

/-- A method ends the wait for a reply only together with the reply brand. -/
theorem Effect.awaiting (h : Effect cfg e brand m k s rs s') {c : TableIndex}
    (hc : s.Sits c .awaiting) : s'.Sits c .awaiting ∨ s.replies c < s'.replies c := by
  rcases h.sits_cases hc with hstays | ⟨rfl, hm, -⟩ | ⟨rfl, hm, he, hstop, -⟩
  · exact .inl hstays
  · rcases h.of_makeRunnable hc hm with rfl | rfl
    · exact .inl hc
    · have hrest := (sameReplies_reseat (s.advanceReply c) c .runnable).trans (sameReplies_calledOff _ c)
      rw [hrest.replies, replies_advanceReply, if_pos rfl]
      exact .inr (Nat.lt_succ_self _)
  · rcases h.of_invalidate he hm with rfl | rfl | rfl
    · exact .inl hc
    · cases hstop.unique ((sameSeats_record _ _).sits hc)
    · right
      have hrecorded : SameReplies s (s.record (.invalidateRequested m.d0 (m.d1 != 0#32))) :=
        .record s fun _ => rfl
      have hkind : (s.record (.invalidateRequested m.d0 (m.d1 != 0#32))).kind m.d0.toNat = .context :=
        hc.kind (by simp)
      rw [invalidated, (sameReplies_bump _ _).replies, replies_invalidationHook hkind, hrecorded.replies]
      exact Nat.lt_succ_self _

/-- Reply keys of calls so far stay such through a method. -/
theorem Effect.fit (h : Effect cfg e brand m k s rs s') (hs : s.Dated) (hs' : s'.Dated)
    (hfew : ∀ x, s'.advances x < 2 ^ 32) {key : Key} (hkey : s.Issued key) (hfit : s.Fit key) :
    s'.Fit key :=
  hfit.mono h.grows (h.live_before hs hs' hfew hkey) fun _ => h.awaiting

/-- Methods make no reply keys, unless Mint Key is asked for one. -/
theorem Effect.keys_fit (h : Effect cfg e brand m k s rs s') (hquiet : s'.Quiet)
    (hstored : ∀ loc, s.Fit (s.keyAt loc)) (i : Fin nMessageKeys) : s'.Fit (rs.keys i) := by
  have hempty : ∀ {t : KState}, t.Fit {} := fit_of_brand (by decide)
  have hwith : ∀ {t : KState} {key : Key}, t.Fit key → t.Fit ((ReplySender.withKey key).keys i) := by
    intro t key hkey
    by_cases hi : i = 1
    · subst hi
      simpa [ReplySender.withKey, ReplySender.setKey] using hkey
    · simpa [ReplySender.withKey, ReplySender.setKey, hi] using hempty
  cases h with
  | reply rs hrs | noInvalidate rs _ _ hrs => exact hrs.keys i ▸ hempty
  | readKey loc => exact hwith (hstored loc)
  | clientKey he => exact hwith (fit_of_kind (by simp [he]) _)
  | change _ _ he => exact hwith (fit_of_kind (by simp [he]) _)
  | mint _ _ hrange =>
    refine hwith fun _ c hptr hkind htop => ?_
    cases hptr
    have hplain := hquiet.unforged _ List.mem_cons_self
    rw [show s.kind m.d0.toNat = .context from hkind] at hplain
    exact Bool.noConfusion (htop.symm.trans hplain)
  | split slot hok =>
    have hslot : (s.splitMemory e slot m.d0).kind slot = .memory := by
      simp [splitMemory, Function.update_apply]
    have he : (s.splitMemory e slot m.d0).kind e = .memory := by simp [splitMemory]
    by_cases h1 : i = 1
    · subst h1
      simpa [ReplySender.setKey] using fit_of_kind (by simp [he]) _
    · by_cases h2 : i = 2
      · subst h2
        simpa [ReplySender.setKey] using fit_of_kind (by simp [hslot]) _
      · simpa [ReplySender.setKey, h1, h2] using hempty
  | makeChild slot =>
    have hslot : (s.makeChildMemory e slot m.d0 m.d1).kind slot = .memory := by simp [makeChildMemory]
    exact hwith (fit_of_kind (by simp [hslot]) _)
  | become => exact hwith (fit_of_brand (show Brand.isTop 0#64 = false by decide))
  | _ => exact hempty

end

/-! ## Answers -/

/-- The brand of the call that the event answers for a Context. -/
def Event.answer (c : TableIndex) : Event → Option Brand
  | .answered x b => if x = c then some b else none
  | _ => none

namespace KState

variable {s s' : KState}

/-- The brands of a Context's calls that were answered, latest first. -/
def answers (s : KState) (c : TableIndex) : List Brand := s.history.filterMap (Event.answer c)

/-- Each call was answered at most once, and calls were answered in their order. -/
def Spent (s : KState) (c : TableIndex) : Prop :=
  ∃ ns : List Nat, s.answers c = ns.map Brand.reply ∧ ns.Pairwise (· > ·) ∧ ∀ n ∈ ns, n < s.replies c

theorem Spent.of_answers {c : TableIndex} (hs : s.Spent c) (h : s'.answers c = s.answers c)
    (hle : s.replies c ≤ s'.replies c) : s'.Spent c := by
  obtain ⟨ns, hanswers, hsorted, hpast⟩ := hs
  exact ⟨ns, h.trans hanswers, hsorted, fun n hn => (hpast n hn).trans_le hle⟩

theorem Spent.cons {c : TableIndex} (hs : s.Spent c)
    (h : s'.answers c = Brand.reply (s.replies c) :: s.answers c) (hlt : s.replies c < s'.replies c) :
    s'.Spent c := by
  obtain ⟨ns, hanswers, hsorted, hpast⟩ := hs
  refine ⟨s.replies c :: ns, by rw [h, hanswers, List.map_cons], hsorted.cons hpast, ?_⟩
  intro n hn
  rcases List.mem_cons.mp hn with rfl | hn
  · exact hlt
  · exact (hpast n hn).trans hlt

end KState

section

variable {A : Authority} {s s' : KState}

/-- Message passing records an answer where a reply key is honoured, and moves the brand on. -/
theorem Act.answers (h : Act A s s') (x : TableIndex) :
    s'.answers x = s.answers x ∨
      s.Sits x .awaiting ∧ s'.answers x = (s.context x).expectedReplyBrand :: s.answers x ∧
        s'.replies x = s.replies x + 1 := by
  have hdeposit : ∀ dst ks, (s.deposit dst ks).answers x = s.answers x := by
    intro dst ks
    cases dst <;> rfl
  cases h with
  | drop loc => cases loc <;> exact .inl rfl
  | note ev hev =>
    left
    cases ev <;> first | rfl | cases hev
  | deposit dst ks => exact .inl (hdeposit _ _)
  | call c dst => exact .inl (hdeposit _ _)
  | answer c b _ hc hb =>
    subst hb
    have hrecorded : ((((s.advanceReply c).record (.answered c (s.context c).expectedReplyBrand)).reseat
        c .runnable).pend).answers x =
        ((if c = x then some (s.context c).expectedReplyBrand else none).toList) ++ s.answers x := by
      by_cases hcx : c = x
      · subst hcx
        simp only [if_true]
        exact List.filterMap_cons_some (if_pos rfl)
      · simp only [hcx, if_false]
        exact List.filterMap_cons_none (if_neg hcx)
    rw [hrecorded]
    by_cases hcx : c = x
    · subst hcx
      refine .inr ⟨hc, by simp, ?_⟩
      exact (replies_advanceReply s c c).trans (by rw [if_pos rfl])
    · exact .inl (by simp [hcx])
  | _ => exact .inl rfl

theorem Act.spent (h : Act A s s') (hs : s.Tallied) {x : TableIndex} (hx : s.Spent x) : s'.Spent x := by
  rcases h.answers x with hsame | ⟨hsits, hnew, hreplies⟩
  · exact hx.of_answers hsame (replies_le h.history x)
  · rw [hs.expected x (hsits.kind (by simp))] at hnew
    exact hx.cons hnew (by omega)

variable {cfg : Config} {e : TableIndex} {brand : Brand} {m : Message} {k : Keys} {rs : ReplySender}

/-- Methods answer nobody. -/
theorem Effect.answers (h : Effect cfg e brand m k s rs s') (x : TableIndex) :
    s'.answers x = s.answers x := by
  cases h with
  | invalidate =>
    simp only [invalidated, invalidationHook]
    split
    · rfl
    · split
      · rfl
      · rfl
    · rfl
    · rfl
  | split slot => simp [KState.answers, splitMemory, Event.answer, List.filterMap_cons]
  | makeChild slot => simp [KState.answers, makeChildMemory, Event.answer, List.filterMap_cons]
  | become t => cases t <;> rfl
  | writeRegion r => split <;> rfl
  | _ => rfl

end

/-! ## Steps -/

namespace KState

variable {s s' : KState}

/-- What is known of a reply key that the kernel may hold. -/
def MayHold (s : KState) (k : Key) : Prop := s.Issued k ∧ (s.Quiet → s.Fit k)

/-- Calls are numbered and answered once, and all stored reply keys are for calls so far. -/
structure OneShot (s : KState) : Prop where
  dated : s.DatedFrom fun _ => 0
  tallied : s.Tallied
  spent : ∀ c, s.Spent c
  fit : s.Quiet → ∀ loc, s.Fit (s.keyAt loc)

/-- Nobody changes seats and no key becomes live. -/
theorem Fit.of_sameSeats {k : Key} (hk : s.Fit k) (hseats : SameSeats s s') (hclock : SameClock s s')
    (hhistory : s.history <:+ s'.history) : s'.Fit k := by
  refine hk.mono hhistory (fun hlive => ⟨?_, fun c _ => congrFun hseats.kind c⟩) fun c hc =>
    .inl (hseats.sits hc)
  rwa [isLive, hclock.generation] at hlive

theorem OneShot.of_sameSeats (h : s.OneShot) (hseats : SameSeats s s') (hclock : SameClock s s')
    (hreplies : SameReplies s s') (hanswers : ∀ c, s'.answers c = s.answers c)
    (hhistory : s.history <:+ s'.history) (hdated : s'.DatedFrom fun _ => 0)
    (hkeys : s.Quiet → ∀ loc, s.Fit (s'.keyAt loc)) : s'.OneShot where
  dated := hdated
  tallied := h.tallied.of_sameReplies hreplies hseats.kind
  spent c := (h.spent c).of_answers (hanswers c) (replies_le hhistory c)
  fit hquiet loc := (hkeys (hquiet.before hhistory) loc).of_sameSeats hseats hclock hhistory

theorem MayHold.act {A : Authority} (h : Act A s s') {k : Key} (hk : s.MayHold k) : s'.MayHold k :=
  ⟨hk.1.mono fun e => (h.sameClock.advances e).ge, fun hquiet => h.fit (hk.2 (hquiet.before h.history))⟩

theorem OneShot.held (h : s.OneShot) (loc : KeyLoc) : s.MayHold (s.keyAt loc) :=
  ⟨h.dated.1.issued loc, fun hquiet => h.fit hquiet loc⟩

theorem OneShot.filled (h : s.OneShot) (e : TableIndex) : s.MayHold (s.filled e 0#64) :=
  ⟨h.dated.1.counted.filled e _, fun _ => fit_of_brand (show Brand.isTop 0#64 = false by decide)⟩

/-- The reply key of a caller that blocks. -/
theorem OneShot.reply_fit (h : s.OneShot) {c : TableIndex} (hkind : s.kind c = .context)
    (hhistory : s.history <:+ s'.history) (hawaits : s'.Sits c .awaiting) :
    s'.Fit (s.filled c (s.context c).expectedReplyBrand) := by
  rintro - x ⟨⟩ - -
  exact ⟨s.replies c, replies_le hhistory c, h.tallied.expected c hkind, fun _ => hawaits⟩

theorem OneShot.act (h : s.OneShot) (hact : Act (.sort MayHold) s s') : s'.OneShot where
  dated := ⟨hact.dated (fun _ hk => hk.1) h.dated.1, fun _ => Nat.zero_le _⟩
  tallied := hact.tallied h.tallied
  spent c := hact.spent h.tallied (h.spent c)
  fit hquiet loc := by
    have hbefore := hquiet.before hact.history
    rcases hact.keyAt_cases loc with hkeep | ⟨-, -, -, hnull⟩ | ⟨c, r, -, -, -, harrives⟩
    · exact hkeep ▸ hact.fit (h.fit hbefore loc)
    · exact hnull ▸ hact.fit ((h.filled 0).2 hbefore)
    · rcases harrives with hkey | ⟨loc', -, hkey⟩ | ⟨x, -, -, hsits, hawaits, hkey⟩
      · exact hact.fit (hkey.2 hbefore)
      · exact hkey ▸ hact.fit (h.fit hbefore loc')
      · exact hkey ▸ h.reply_fit hsits.kind_of_runnable hact.history hawaits

theorem OneShot.looked (h : s.OneShot) (kind : Kind) (e : TableIndex) (b : Brand) :
    (s.looked kind e b).OneShot ∧ ∀ k, s.MayHold k → (s.looked kind e b).MayHold k := by
  have hnote : Act (.sort MayHold) s (s.record (.consulted e b)) := .note _ trivial
  rcases s.looked_cases kind e b with hlooked | hlooked
  · rw [hlooked]
    exact ⟨h, fun _ hk => hk⟩
  · rw [hlooked]
    exact ⟨h.act hnote, fun _ hk => hk.act hnote⟩

/-- Methods keep it, and the keys in a reply may be held. -/
theorem OneShot.served {cfg : Config} {e : TableIndex} {brand : Brand} {m : Message} {k : Keys}
    {rs : ReplySender} (h : s.OneShot) (hk : ∀ i, s.MayHold (k i))
    (heffect : Effect cfg e brand m k s rs s') :
    s'.OneShot ∧ s'.MayHold (k 0) ∧ ∀ i, s'.MayHold (rs.keys i) := by
  have hdated := h.dated.1
  have hdated' := heffect.dated hdated (hk 1).1
  have hkept : s'.Quiet → ∀ {key : Key}, s.MayHold key → s'.Fit key := fun hquiet _ hkey =>
    heffect.fit hdated hdated' hquiet.few hkey.1 (hkey.2 (hquiet.before heffect.grows))
  refine ⟨⟨⟨hdated', fun _ => Nat.zero_le _⟩, heffect.tallied h.tallied, fun c => ?_, fun hquiet loc => ?_⟩,
    ⟨(hk 0).1.mono heffect.ticks.advances_le, fun hquiet => hkept hquiet (hk 0)⟩,
    fun i => ⟨heffect.issued hdated (hk 1).1 i, fun hquiet => ?_⟩⟩
  · exact (h.spent c).of_answers (heffect.answers c) (replies_le heffect.grows c)
  · rcases heffect.keyAt_cases loc with hkeep | ⟨hblank, -⟩ | ⟨hwritten, -⟩
    · exact hkeep ▸ hkept hquiet (h.held loc)
    · refine fit_of_brand ?_
      rw [hblank.1]
      decide
    · exact hwritten ▸ hkept hquiet (hk 1)
  · exact heffect.keys_fit hquiet (h.fit (hquiet.before heffect.grows)) i

/-- A live key that matches the expected reply brand is for the call that its Context awaits the
reply to. -/
theorem OneShot.awaiting (h : s.OneShot) {k : Key} (hk : s.MayHold k) (hquiet : s.Quiet)
    {c : TableIndex} (hfew : s.replies c < 2 ^ 63) (hlive : s.isLive k = true) (hptr : k.ptr = some c)
    (hkind : s.kind c = .context) (hexpected : k.brand = (s.context c).expectedReplyBrand) :
    s.Sits c .awaiting := by
  have hbrand : k.brand = Brand.reply (s.replies c) := hexpected.trans (h.tallied.expected c hkind)
  have htop : k.brand.isTop = true := by
    rw [hbrand]
    exact Brand.isTop_reply _
  obtain ⟨n, hn, hreply, hlast⟩ := hk.2 hquiet hlive c hptr hkind htop
  exact hlast (Brand.reply_inj (hn.trans_lt hfew) hfew (hreply.symm.trans hbrand))

end KState

theorem one_shot_confined : Confined (.sort MayHold) OneShot := by
  refine .sort (fun h => h.filled 0) (fun loc h => h.held loc) (fun _ h _ => h.filled _)
    (fun {s c dst} _ h hsits => ?_) (fun _ h hact => h.act hact) (fun _ _ hact hk => hk.act hact)
  have hhistory : s.history <:+ (((s.deposit dst (s.sentKeys c)).reseat c .awaiting).pend).history := by
    cases dst <;> exact List.suffix_rfl
  have hawaits : (((s.deposit dst (s.sentKeys c)).reseat c .awaiting).pend).Sits c .awaiting := by
    refine (sameSeats_pend _).sits (sits_reseat _ _ _ (fun _ => ?_) (by simp [Seat.gate]))
    exact ((s.sameSeats_deposit dst _).sits hsits).kind_of_runnable
  refine ⟨(h.dated.1.counted.filled c _).mono fun e => hhistory.sublist.countP_le, fun _ => ?_⟩
  exact h.reply_fit hsits.kind_of_runnable hhistory hawaits

theorem KState.sameReplies_switchTo (s : KState) (c : TableIndex) : SameReplies s (s.switchTo c) := by
  have hrecorded : SameReplies s (s.record (.switched c)) := .record s fun _ => rfl
  have hcurrent : SameReplies s ({ s.record (.switched c) with current := c } : KState) :=
    hrecorded.trans (.of_history rfl fun _ => rfl)
  exact hcurrent.trans (sameReplies_loadMpu _ c)

/-- The reply brand of each Context has moved fewer than 2^63 times. -/
def KState.Unturned (s : KState) : Prop := ∀ c, s.replies c < 2 ^ 63

theorem KState.OneShot.honest {s : KState} (h : s.OneShot) :
    (Authority.sort MayHold).Honest s
      fun p s' => p = .notAwaitingReply → ¬(s'.Quiet ∧ s'.Unturned) := by
  rintro c b hkey hexpected - hkind hnot - ⟨hquiet, hunturned⟩
  have hgrows : s.history <:+ (s.advanceReply c).history := List.suffix_cons _ _
  exact hnot (h.awaiting hkey (hquiet.before hgrows) ((replies_le hgrows c).trans_lt (hunturned c))
    (by simp [isLive, KState.filled]) rfl hkind hexpected)

/-- A reply key can match without a wait only after a rollover or a forgery, or when the reply brand
has gone around. -/
theorem one_shot_keeps (cfg : Config) :
    Keeps cfg (.sort MayHold) OneShot OneShot
      (fun p s' => p = .notAwaitingReply → ¬(s'.Quiet ∧ s'.Unturned)) where
  rules :=
    { pass := one_shot_confined
      reply := one_shot_confined
      through := fun _ h => h
      serve := by
        intro s e b m k kind rs s' _ h _ _ hkeys heffect
        obtain ⟨hlooked, hmay⟩ := h.looked kind e b
        exact hlooked.served (fun i => hmay _ (hkeys i)) heffect
      fault := by
        rintro s e b m k kind p _ _ _ _ hfault s' rfl
        cases hfault with
        | becomeInterrupt _ hp | invalidateInterrupt _ hp => simp [Panic.isRedirection] at hp
      honest := fun _ h => h.honest
      honestReply := fun _ h => h.honest }
  object _ := trivial
  blocks := trivial
  masked i h := by
    refine h.of_sameSeats (sameSeats_masked _ i) (.of_history rfl rfl) (.of_history rfl fun _ => rfl)
      (fun _ => rfl) List.suffix_rfl ((dated_keeps cfg _).masked i h.dated) fun hquiet loc => ?_
    rw [keyAt_of_bodies rfl rfl]
    exact h.fit hquiet loc
  entered {t} stack regs h := by
    have hunpended : SameSeats t ({ t with pendSv := false } : KState) :=
      ⟨rfl, rfl, rfl, fun _ => .refl _, fun _ => .refl _⟩
    have hreplies : SameReplies t ({ t with pendSv := false } : KState) := .of_history rfl fun _ => rfl
    have hexpected : SameReplies t (({ t with pendSv := false } : KState).entered stack regs) := by
      unfold entered
      exact hreplies.trans (sameReplies_updateContext _ _ rfl)
    refine h.of_sameSeats (hunpended.trans (sameSeats_entered _ _ _)) (.of_history rfl rfl) hexpected
      (fun _ => rfl) List.suffix_rfl ((dated_keeps cfg _).entered stack regs h.dated) fun hquiet loc => ?_
    rw [entered, keyAt_updateContext rfl rfl, keyAt_of_bodies rfl rfl]
    exact h.fit hquiet loc
  copied {t} c dst src hdst h := by
    refine h.of_sameSeats (t.sameSeats_setKeyAt _ _) (.setKeyAt _ _ _) (sameReplies_setKeyAt _ _ _)
      (fun _ => rfl) List.suffix_rfl ((dated_keeps cfg _).copied c dst src hdst h.dated) fun hquiet loc => ?_
    by_cases hloc : loc = .keyReg c dst
    · rw [hloc, keyAt_setKeyAt]
      exact h.fit hquiet _
    · rw [keyAt_setKeyAt_of_ne hloc]
      exact h.fit hquiet _
  stored {t} a v ha h := by
    have hseats : SameSeats t { t with ram := Function.update t.ram a v } :=
      ⟨rfl, rfl, rfl, fun _ => .refl _, fun _ => .refl _⟩
    refine h.of_sameSeats hseats (.of_history rfl rfl) (.of_history rfl fun _ => rfl) (fun _ => rfl)
      List.suffix_rfl ((dated_keeps cfg _).stored a v ha h.dated) fun hquiet loc => ?_
    rw [keyAt_of_bodies rfl rfl]
    exact h.fit hquiet loc
  deferred {t} h := by
    have hseats : SameSeats t { t with switchPending := false, pendSv := true } :=
      ⟨rfl, rfl, rfl, fun _ => .refl _, fun _ => .refl _⟩
    refine h.of_sameSeats hseats (.of_history rfl rfl) (.of_history rfl fun _ => rfl) (fun _ => rfl)
      List.suffix_rfl ((dated_keeps cfg _).deferred h.dated) fun hquiet loc => ?_
    rw [keyAt_of_bodies rfl rfl]
    exact h.fit hquiet loc
  elected {t} c hwf hc h := by
    have hidle : SameSeats t ({ t with switchPending := false } : KState) :=
      ⟨rfl, rfl, rfl, fun _ => .refl _, fun _ => .refl _⟩
    have hreplies : SameReplies t ({ t with switchPending := false } : KState) :=
      .of_history rfl fun _ => rfl
    have hclock : SameClock t ({ t with switchPending := false } : KState) := .of_history rfl rfl
    refine h.of_sameSeats (hidle.trans (sameSeats_switchTo _ c)) (hclock.trans (sameClock_switchTo _ c))
      (hreplies.trans (sameReplies_switchTo _ c)) (fun _ => rfl) (List.suffix_cons _ _)
      ((dated_keeps cfg _).elected c hwf hc h.dated) fun hquiet loc => ?_
    rcases keyAt_switchTo _ c loc with hkeep | hblank
    · rw [hkeep, keyAt_of_bodies rfl rfl]
      exact h.fit hquiet loc
    · refine fit_of_brand ?_
      rw [hblank.1]
      decide
  checks p s' h := by
    rintro rfl
    simp [Panic.isRedirection] at h

/-- At boot nobody has called. -/
theorem Booted.oneShot {app : AppInfo} {s : KState} (h : Booted app s) : s.OneShot := by
  have hreplies : ∀ c, s.replies c = 0 := by
    intro c
    rw [KState.replies, h.history]
    rfl
  refine ⟨⟨h.dated, fun _ => Nat.zero_le _⟩, ⟨fun c hc => ?_, fun c _ => hreplies c⟩, fun c => ?_,
    fun _ loc => ?_⟩
  · obtain rfl : c = 2 := by
      by_contra hne
      rw [h.kind, AppInfo.bootKind] at hc
      grind
    rw [h.expected, hreplies, Brand.reply_zero]
  · refine ⟨[], ?_, List.Pairwise.nil, by simp⟩
    rw [KState.answers, h.history]
    rfl
  · -- The first Context's keys have brand 0, or one word as brand.
    have hzero : Brand.isTop 0#64 = false := by decide
    refine fit_of_brand ?_
    cases loc with
    | keyReg c i =>
      by_cases hc : c = 2
      · subst hc
        rw [keyAt, h.keys]
        by_cases hi : i = 1
        · simpa [hi, KState.filled] using hzero
        · simpa [hi] using hzero
      · rw [keyAt, h.others c hc]
        exact hzero
    | regionReg c i =>
      by_cases hc : c = 2
      · subst hc
        obtain ⟨e, b, -, hkey⟩ := h.regions i
        rw [keyAt, hkey]
        simp [KState.filled, Brand.isTop]
      · rw [keyAt, h.others c hc]
        exact hzero
    | target i =>
      rw [keyAt, h.interrupt]
      exact hzero

section

variable {etl : Etl} {app : AppInfo} {s : KState}

theorem Reachable.oneShot (h : Reachable (.source etl) app s) : s.OneShot :=
  (one_shot_keeps (.source etl)).reachable rfl (fun hboot => hboot.oneShot) h

/-- A second Context calls the Gate, and the first one takes its message. -/
def Sample.calling : List Action := queueing.dropLast ++ [
  ipc (descriptor 0 1 0 true true true) 0#32 0#32 0#32 0#32 0#32,
  ipc (descriptor 0 0 3 false true true) 0#32 0#32 0#32 0#32 0x7#32]

end

end BrittleKernel
