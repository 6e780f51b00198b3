import BrittleKernel.System.Halving

/-!
# Running out of Slots

What a failing allocation leaves behind.  The loop that splits blocks takes each block off its
list before it asks for a slot for the top half; without one it gives up, and the block stays off
its list.
-/

namespace BrittleKernel.System

open Hoare KState Links

/-! ## Counting free bytes -/

theorem bytes_update (lists : Nat → List Word) {l : Nat} (hl : l < memRootsCount) (xs : List Word) :
    bytes (Function.update lists l xs) + (lists l).length * 2 ^ (l + 1) =
      bytes lists + xs.length * 2 ^ (l + 1) := by
  have hmem : l ∈ Finset.range memRootsCount := Finset.mem_range.mpr hl
  rw [bytes, bytes, ← Finset.add_sum_erase _ _ hmem, ← Finset.add_sum_erase _ _ hmem,
    Function.update_self]
  have hrest : ∑ i ∈ (Finset.range memRootsCount).erase l,
      (Function.update lists l xs i).length * 2 ^ (i + 1) =
        ∑ i ∈ (Finset.range memRootsCount).erase l, (lists i).length * 2 ^ (i + 1) := by
    apply Finset.sum_congr rfl
    intro i hi
    rw [Function.update_of_ne (Finset.ne_of_mem_erase hi)]
  rw [hrest]
  omega

/-- A block that is taken is missing. -/
theorem bytes_take {lists : Nat → List Word} {l : Nat} {oti : Word} {rest : List Word}
    (hl : l < memRootsCount) (hlist : lists l = oti :: rest) :
    bytes (Function.update lists l rest) + 2 ^ (l + 1) = bytes lists := by
  have hcount := bytes_update lists hl rest
  rw [hlist, List.length_cons, Nat.add_mul] at hcount
  omega

/-- Two halves are as much as the block. -/
theorem bytes_split {lists : Nat → List Word} {l : Nat} {oti : Word} {rest : List Word}
    (top : Word) (hpos : 0 < l) (hl : l < memRootsCount) (hlist : lists l = oti :: rest) :
    bytes (Function.update (Function.update lists l rest) (l - 1) (oti :: top :: lists (l - 1))) =
      bytes lists := by
  have htake := bytes_take hl hlist
  have hcount := bytes_update (Function.update lists l rest) (l := l - 1) (by omega)
    (oti :: top :: lists (l - 1))
  rw [Function.update_of_ne (by omega), List.length_cons, List.length_cons, Nat.sub_add_cancel hpos,
    Nat.add_mul, Nat.add_mul] at hcount
  rw [Nat.pow_succ] at htake
  omega

/-! ## The loop -/

section

variable {build : Build} {σ σ' : State} {lists : Nat → List Word} {target l : Nat} {oti : Word}
  {rest : List Word}

/-- Slots that can still be handed out. -/
def State.slotsLeft (build : Build) (σ : State) : Nat := (build.extraSlotCount - σ.slotsUsed).toNat

theorem slotsLeft_eq_zero_iff : σ.slotsLeft build = 0 ↔ σ.slotsUsed = build.extraSlotCount := by
  have hused := σ.slotsUsed.isLt
  have hextra := build.extraSlotCount.isLt
  rw [State.slotsLeft, BitVec.toNat_sub, ← BitVec.toNat_inj]
  omega

theorem State.SplitOff.slotsLeft (h : σ.SplitOff σ' lists l oti (σ.slotIndex build 0) rest)
    (hsome : σ.slotsUsed ≠ build.extraSlotCount) :
    σ.slotsLeft build = σ'.slotsLeft build + 1 := by
  have hne : σ.slotsUsed.toNat ≠ build.extraSlotCount.toNat := fun heq =>
    hsome (BitVec.eq_of_toNat_eq heq)
  have hused := σ.slotsUsed.isLt
  have hextra := build.extraSlotCount.isLt
  rw [State.slotsLeft, State.slotsLeft, h.slotsUsed, BitVec.toNat_sub, BitVec.toNat_sub,
    BitVec.toNat_add, show (1#32 : Word).toNat = 1 from rfl]
  omega

/-- The slots after the first are the same ones before and after a split. -/
theorem State.SplitOff.usable_iff (h : σ.SplitOff σ' lists l oti (σ.slotIndex build 0) rest)
    (hfree : σ.FreeLists lists) (hlist : lists l = oti :: rest) {i : Nat} (hi : i + 1 < 2 ^ 32) :
    σ'.Usable build i ↔ σ.Usable build (i + 1) := by
  have hindex : σ'.slotIndex build i = σ.slotIndex build (i + 1) := by
    rw [State.slotIndex, State.slotIndex, h.slotsUsed, BitVec.ofNat_add, BitVec.add_assoc σ.slotsUsed,
      BitVec.add_comm 1#32]
  have hne : (σ.slotIndex build (i + 1)).toNat ≠ (σ.slotIndex build 0).toNat := by
    rw [State.slotIndex, State.slotIndex]
    simp only [BitVec.toNat_add, BitVec.toNat_ofNat]
    omega
  rw [State.Usable, State.Usable, hindex, h.count]
  by_cases hoti : (σ.slotIndex build (i + 1)).toNat = oti.toNat
  · -- The block itself is no Slot, neither before nor after.
    have hbefore := (hfree.block l oti (by simp [hlist])).kind
    have hafter := (h.free.block (l - 1) oti (by simp)).kind
    simp [hoti, hbefore, hafter]
  · rw [(h.elsewhere _ hoti hne).kind]

/-- Every slot that is left can be used. -/
def State.AllUsable (build : Build) (σ : State) : Prop := ∀ i < σ.slotsLeft build, σ.Usable build i

theorem State.SplitOff.allUsable_iff (h : σ.SplitOff σ' lists l oti (σ.slotIndex build 0) rest)
    (hfree : σ.FreeLists lists) (hlist : lists l = oti :: rest)
    (hsome : σ.slotsUsed ≠ build.extraSlotCount) (husable : σ.Usable build 0) :
    σ'.AllUsable build ↔ σ.AllUsable build := by
  have hleft := h.slotsLeft hsome
  have hlt : σ.slotsLeft build < 2 ^ 32 := (build.extraSlotCount - σ.slotsUsed).isLt
  constructor
  · intro hall i hi
    cases i with
    | zero => exact husable
    | succ i => exact (h.usable_iff hfree hlist (by omega)).mp (hall i (by omega))
  · intro hall i hi
    exact (h.usable_iff hfree hlist (by omega)).mpr (hall (i + 1) (by omega))

/-- Splitting down to the target runs out of slots on the way. -/
def State.Stuck (build : Build) (σ : State) (n : Nat) : Prop :=
  σ.slotsLeft build < n ∧ σ.AllUsable build

/-- The splits of the second pass, from list `target + n` down to the target. -/
theorem splitDown_stuck (n : Nat) (hstuck : σ.Stuck build n) (h : σ.FreeLists lists)
    (htarget : 4 ≤ target) (hlist : lists (target + n) ≠ []) :
    wp (splitDown build target n)
      (fun r σ' => r = false ∧ ∃ lists', σ'.FreeLists lists' ∧ bytes lists' < bytes lists) never σ := by
  induction n generalizing σ lists with
  | zero =>
    obtain ⟨hfew, -⟩ := hstuck
    omega
  | succ n ih =>
    obtain ⟨hfew, hall⟩ := hstuck
    obtain ⟨oti, rest, hcons⟩ := List.exists_cons_of_ne_nil hlist
    have hlt := (h.block (target + (n + 1)) oti (by simp [hcons])).lt
    rw [splitDown, wp_bind]
    apply wp_splitOnce h hcons (by omega)
    · -- No slot: the block that was just taken is lost.
      intro _
      refine ⟨rfl, _, (h.take hlt hcons 0#64).1, ?_⟩
      have hmissing := bytes_take hlt hcons
      have hpos := Nat.two_pow_pos (target + (n + 1) + 1)
      omega
    · intro hsome husable σ' hsplit
      have hbytes := bytes_split (σ.slotIndex build 0) (by omega) hlt hcons
      have hleft := hsplit.slotsLeft hsome
      rw [← hbytes]
      apply ih _ hsplit.free
      · rw [show target + (n + 1) - 1 = target + n by omega, Function.update_self]
        simp
      · exact ⟨by omega, (hsplit.allUsable_iff h hcons hsome husable).mpr hall⟩
    · intro hsome hnot
      have hpos : σ.slotsLeft build ≠ 0 := fun hzero => hsome (slotsLeft_eq_zero_iff.mp hzero)
      exact (hnot (hall 0 (by omega))).elim

/-- Otherwise the loop arrives, or an assertion fails. -/
theorem splitDown_arrives (n : Nat) (hstuck : ¬σ.Stuck build n) (h : σ.FreeLists lists)
    (htarget : 4 ≤ target) (hlist : lists (target + n) ≠ []) :
    wp (splitDown build target n)
      (fun r σ' => r = true ∧ ∃ lists', σ'.FreeLists lists' ∧ lists' target ≠ []) (fun _ _ => True) σ := by
  induction n generalizing σ lists with
  | zero => exact ⟨rfl, lists, h, hlist⟩
  | succ n ih =>
    obtain ⟨oti, rest, hcons⟩ := List.exists_cons_of_ne_nil hlist
    rw [splitDown, wp_bind]
    apply wp_splitOnce h hcons (by omega)
    · intro hnone
      have hzero := slotsLeft_eq_zero_iff.mpr hnone
      exact (hstuck ⟨by omega, fun i hi => by omega⟩).elim
    · intro hsome husable σ' hsplit
      have hleft := hsplit.slotsLeft hsome
      apply ih _ hsplit.free
      · rw [show target + (n + 1) - 1 = target + n by omega, Function.update_self]
        simp
      · rintro ⟨hfew, hall⟩
        exact hstuck ⟨by omega, (hsplit.allUsable_iff h hcons hsome husable).mp hall⟩
    · intro _ _ _ _
      trivial

end

/-! ## Failing allocations -/

section

variable {build : Build} {σ σ' : State} {lists lists' : Nat → List Word}

/-- The first pass finds a list to split, and the slots run out before the target is reached. -/
def State.RunsOut (build : Build) (σ : State) (target : Word) : Prop :=
  4 ≤ target.toNat ∧ ∃ l, findRoot σ.memRoots target.toNat = some l ∧ σ.Stuck build (l - target.toNat)

theorem findRoot_some {memRoots : Nat → Word} {target l : Nat} (h : findRoot memRoots target = some l) :
    target ≤ l ∧ l < memRootsCount ∧ memRoots l ≠ 0#32 := by
  have hmem := List.mem_of_find?_eq_some h
  have hroot := List.find?_some h
  obtain ⟨hlow, hhigh⟩ := List.mem_range'_1.mp hmem
  refine ⟨hlow, ?_, by simpa using hroot⟩
  omega

theorem allocMem_stuck (h : σ.FreeLists lists) {target : Word} (hstuck : σ.RunsOut build target)
    (brand : Brand) : ∃ σ' lists', allocMem build target brand σ = .ok none σ' ∧
      σ'.FreeLists lists' ∧ bytes lists' < bytes lists := by
  obtain ⟨hlarge, l, hfind, hsplits⟩ := hstuck
  obtain ⟨hlow, hlt, hroot⟩ := findRoot_some hfind
  have hlist : lists (target.toNat + (l - target.toNat)) ≠ [] := by
    rw [Nat.add_sub_cancel' hlow]
    exact fun hnil => hroot ((h.memRoots_eq_zero_iff hlt).mpr hnil)
  have hrun : wp (allocMem build target brand) (fun r σ' => r = none ∧ ∃ lists', σ'.FreeLists lists' ∧
      bytes lists' < bytes lists) never σ := by
    have hlarge' : ¬target < 4#32 := BitVec.not_lt.mpr hlarge
    simp only [allocMem, hlarge', if_false, wp_bind, wp_get, hfind]
    apply wp_mono (splitDown_stuck _ hsplits h hlarge hlist) _ fun _ _ h => h
    rintro _ σ' ⟨rfl, hlost⟩
    exact ⟨rfl, hlost⟩
  obtain ⟨_, σ', hok, rfl, lists', hfree, hlost⟩ := exists_ok hrun
  exact ⟨σ', lists', hok, hfree, hlost⟩

/-- Otherwise a failure is seen before anything has changed. -/
theorem eq_of_allocMem_none (h : σ.FreeLists lists) {target : Word}
    (hstuck : ¬σ.RunsOut build target) {brand : Brand}
    (hnone : allocMem build target brand σ = .ok none σ') : σ' = σ := by
  have hrun : wp (allocMem build target brand) (fun r σ' => r = none → σ' = σ)
      (fun _ _ => True) σ := by
    simp only [allocMem, wp_bind, wp_ite, wp_pure, wp_get, implies_true, true_and]
    intro hlarge
    have hlarge' : 4 ≤ target.toNat := BitVec.not_lt.mp hlarge
    cases hfind : findRoot σ.memRoots target.toNat with
    | none =>
      intro _
      rfl
    | some l =>
      obtain ⟨hlow, hlt, hroot⟩ := findRoot_some hfind
      have hlist : lists (target.toNat + (l - target.toNat)) ≠ [] := by
        rw [Nat.add_sub_cancel' hlow]
        exact fun hnil => hroot ((h.memRoots_eq_zero_iff hlt).mpr hnil)
      have hsplits : ¬σ.Stuck build (l - target.toNat) := fun hsplits =>
        hstuck ⟨hlarge', l, hfind, hsplits⟩
      show wp (splitDown _ _ _ >>= _) _ _ _
      rw [wp_bind]
      apply wp_mono (splitDown_arrives _ hsplits h hlarge' hlist) _ fun _ _ _ => trivial
      rintro _ σ₁ ⟨rfl, -⟩
      simp only [if_true, wp_bind, wp_pure]
      apply wp_of_forall
      · intro _ _ hcontra
        simp at hcontra
      · intro _ _
        trivial
  exact wp_ok hrun hnone rfl

/-- The block is free as it was, or both its halves are. -/
def State.StillFree (σ σ' : State) (lists' : Nat → List Word) (l : Nat) (oti : Word) : Prop :=
  oti ∈ lists' l ∧ σ'.kernel.memory oti.toNat = σ.kernel.memory oti.toNat ∨
    ∃ bottom top, bottom ∈ lists' (l - 1) ∧ top ∈ lists' (l - 1) ∧ bottom ≠ top ∧
      (σ'.kernel.memory bottom.toNat).base = (σ.kernel.memory oti.toNat).base ∧
      (σ'.kernel.memory top.toNat).base.toNat = (σ.kernel.memory oti.toNat).base.toNat + 2 ^ l

/-- A request that yields nothing leaves everything free that was free. -/
structure LosesNothing (σ σ' : State) (lists lists' : Nat → List Word) (build : Build) : Prop where
  free : σ'.FreeLists lists'
  bytes : bytes lists' = bytes lists
  blocks : ∀ l, ∀ oti ∈ lists l, σ.StillFree σ' lists' l oti
  /-- Later requests for a size that is on the lists are met. -/
  later : ∀ (target : Word) (brand : Brand), 4 ≤ target.toNat → lists' target.toNat ≠ [] →
    ∃ k σ'', allocMem build target brand σ' = .ok (some k) σ''

/-- Failing allocations lose nothing exactly if the slots do not run out between two splits. -/
theorem alloc_loses_nothing_iff (h : σ.FreeLists lists) (target : Word) (brand : Brand) :
    (∀ σ', allocMem build target brand σ = .ok none σ' →
        ∃ lists', LosesNothing σ σ' lists lists' build) ↔
      ¬σ.RunsOut build target := by
  constructor
  · intro hkeeps hstuck
    obtain ⟨σ', lists'', hnone, hfree, hlost⟩ := allocMem_stuck h hstuck brand
    obtain ⟨lists', hsame⟩ := hkeeps σ' hnone
    have hbytes := hsame.bytes
    rw [hsame.free.unique hfree] at hbytes
    omega
  · intro hstuck σ' hnone
    obtain rfl := eq_of_allocMem_none h hstuck hnone
    refine ⟨lists, h, rfl, fun l oti hmem => .inl ⟨hmem, rfl⟩, fun target' brand' hlarge hlist => ?_⟩
    obtain ⟨oti, rest, hcons⟩ := List.exists_cons_of_ne_nil hlist
    have hlt := (h.block target'.toNat oti (by simp [hcons])).lt
    have hroot : σ'.memRoots target'.toNat ≠ 0#32 := fun hzero =>
      hlist ((h.memRoots_eq_zero_iff hlt).mp hzero)
    have halloc : allocMem build (BitVec.ofNat 32 target'.toNat) brand' σ' = _ :=
      allocMem_of_head hlarge hlt (h.hasHead hlt hcons) hroot
    rw [BitVec.ofNat_toNat, BitVec.setWidth_eq] at halloc
    exact ⟨_, _, halloc⟩

end

/-! ### Samples -/

namespace PoolSample

def build : Build := ⟨Sample.etl, 3#32, 1#32, 10#32⟩

def memory : Memory where
  base := 0x20000000#32
  size := 64#32
  attributes := Memory.initAttributes 0x20000000#32 64#32 0#32

/-- One free block of 64 bytes, in entry 3 of a table that is otherwise Slots. -/
def state (slotsUsed : Word) : State where
  kernel :=
    { count := 20
      kind := fun e =>
        if e = 0 then .null else if e = 1 then .objectTable else if e = 3 then .memory else .slot
      memory := fun _ => memory }
  ot := ⟨0#64, 0#32, some 1⟩
  memRoots := fun l => if l = 5 then 3#32 else 0#32
  slotsUsed := slotsUsed

def lists (l : Nat) : List Word := if l = 5 then [3#32] else []

theorem block (slotsUsed : Word) : (state slotsUsed).Block 5 3#32 := by
  have hmemory : (state slotsUsed).kernel.memory (3#32 : Word).toNat = memory := rfl
  constructor
  · show 3 < 20
    decide
  · rfl
  all_goals rw [hmemory]
  · decide
  · exact Memory.mappableRange_iff.mp (by decide)
  · decide
  · exact ⟨0#32, rfl⟩
  · rfl
  · rfl

theorem freeLists (slotsUsed : Word) : (state slotsUsed).FreeLists lists := by
  have hmem : ∀ l oti, oti ∈ lists l → l = 5 ∧ oti = 3#32 := by
    intro l oti hin
    by_cases hl : l = 5 <;> simp_all [lists]
  refine ⟨⟨rfl, rfl⟩, rfl, ?_, ?_, ?_⟩
  · intro l _
    by_cases hl : l = 5
    · subst hl
      have hend : (state slotsUsed).nextFree 3#32 = 0#32 := by
        show (0#8 ++ 0#8 ++ 0#8 ++ 0#8 : Word) = 0#32
        decide
      exact ⟨rfl, hend⟩
    · simp [lists, hl, state]
  · intro l oti hin
    obtain ⟨rfl, rfl⟩ := hmem l oti hin
    exact block slotsUsed
  · intro l l' oti oti' hin hin' hne
    exact (hne ((hmem l oti hin).2.trans (hmem l' oti' hin').2.symm)).elim

end PoolSample

/-- With slots left, a request for 32 bytes does not fail at all. -/
theorem alloc_loses_nothing_sample :
    ¬(PoolSample.state 0#32).RunsOut PoolSample.build 4#32 ∧
      ∀ σ', allocMem PoolSample.build 4#32 0#64 (PoolSample.state 0#32) = .ok none σ' →
        ∃ lists', LosesNothing (PoolSample.state 0#32) σ' PoolSample.lists lists' PoolSample.build := by
  have hplenty : ¬(PoolSample.state 0#32).RunsOut PoolSample.build 4#32 := by
    rintro ⟨-, l, hfind, hfew, -⟩
    obtain rfl : 5 = l := Option.some.inj hfind
    revert hfew
    decide
  exact ⟨hplenty, (alloc_loses_nothing_iff (PoolSample.freeLists 0#32) 4#32 0#64).mpr hplenty⟩

/-- Without slots, the request takes the only block off its list, fails and leaves 64 bytes less. -/
theorem alloc_loses_block : ∃ σ', allocMem PoolSample.build 4#32 0#64 (PoolSample.state 10#32) =
      .ok none σ' ∧ (PoolSample.state 10#32).FreeLists PoolSample.lists ∧
    ∀ lists', ¬LosesNothing (PoolSample.state 10#32) σ' PoolSample.lists lists' PoolSample.build := by
  have hstuck : (PoolSample.state 10#32).RunsOut PoolSample.build 4#32 := by
    refine ⟨by decide, 5, rfl, by decide, fun i hi => ?_⟩
    have hnone : (PoolSample.state 10#32).slotsLeft PoolSample.build = 0 := by decide
    omega
  obtain ⟨σ', lists'', hnone, hfree, hlost⟩ := allocMem_stuck (PoolSample.freeLists 10#32) hstuck 0#64
  refine ⟨σ', hnone, PoolSample.freeLists 10#32, fun lists' hsame => ?_⟩
  have hbytes := hsame.bytes
  rw [hsame.free.unique hfree] at hbytes
  omega

end BrittleKernel.System
