import BrittleKernel.Runs
import BrittleKernel.MemoryTree
import BrittleKernel.System.Alloc

/-!
# Slots of the Booted Table

The Object Table as boot lays it out, and the indices that the system's slot allocator takes
from it.  Both sides compute where the Slots begin from the same counts; they differ by one.
-/

namespace BrittleKernel

open Hoare KState

/-! ## The table after boot -/

namespace AppInfo

variable (app : AppInfo)

/-- Number of entries that the memory map asks for. -/
def mapCount : Nat := app.memoryMapCount.toNat + app.deviceMapCount.toNat

/-- The table of these counts has no more than 2^32 entries. -/
def CountsFit : Prop := wellKnownObjectCount + app.mapCount + app.extraSlotCount.toNat < 2 ^ 32

variable {app}

theorem CountsFit.tableSize (h : app.CountsFit) :
    app.tableSize.toNat = wellKnownObjectCount + app.mapCount + app.extraSlotCount.toNat := by
  rw [CountsFit, mapCount] at h
  rw [AppInfo.tableSize, mapCount]
  simp only [wellKnownObjectCount, BitVec.toNat_add, BitVec.toNat_ofNat] at h ⊢
  omega

theorem CountsFit.firstSlot (h : app.CountsFit) :
    (app.tableSize - app.extraSlotCount).toNat = wellKnownObjectCount + app.mapCount := by
  have hsize := h.tableSize
  rw [BitVec.toNat_sub_of_le (by rw [BitVec.le_def]; omega), hsize]
  omega

theorem CountsFit.memories (h : app.CountsFit) : app.memories = app.mapCount := by
  have hfirst := h.firstSlot
  have hthree : (BitVec.ofNat 32 wellKnownObjectCount).toNat = wellKnownObjectCount := rfl
  rw [AppInfo.memories, BitVec.toNat_sub_of_le (by rw [BitVec.le_def, hthree]; omega), hfirst, hthree]
  omega

theorem CountsFit.slots (h : app.CountsFit) : app.slots = app.extraSlotCount.toNat := by
  have hsize := h.tableSize
  have hfirst := h.firstSlot
  rw [AppInfo.slots, BitVec.toNat_sub_of_le (by rw [BitVec.le_def]; omega)]
  omega

end AppInfo

/-- What each entry of the table is after boot. -/
structure BootLayout (app : AppInfo) (s : KState) : Prop where
  count : s.count = wellKnownObjectCount + app.mapCount + app.extraSlotCount.toNat
  null : s.kind 0 = .null
  objectTable : s.kind 1 = .objectTable
  firstContext : s.kind 2 = .context
  mapped : ∀ i < app.mapCount, s.kind (wellKnownObjectCount + i) = .memory ∧
    (s.memory (wellKnownObjectCount + i)).base = (app.memoryMap i).base ∧
    (s.memory (wellKnownObjectCount + i)).size =
      (app.memoryMap i).end - (app.memoryMap i).base ∧
    ((s.memory (wellKnownObjectCount + i)).isDevice = true ↔ app.memoryMapCount.toNat ≤ i)
  slots : ∀ i < app.extraSlotCount.toNat, s.kind (wellKnownObjectCount + app.mapCount + i) = .slot

/-- Boot lays the table out by the counts of the header. -/
theorem Booted.layout {app : AppInfo} {s : KState} (h : Booted app s) (hfits : app.CountsFit) :
    BootLayout app s where
  count := h.count.trans hfits.tableSize
  null := by rw [h.kind]; rfl
  objectTable := by rw [h.kind]; rfl
  firstContext := by rw [h.kind]; rfl
  mapped := by
    intro i hi
    rw [← hfits.memories] at hi
    have hmemory : s.memory (wellKnownObjectCount + i) = app.bootMemory i := by
      simp [h.memory, hi]
    refine ⟨?_, ?_, ?_, ?_⟩
    · rw [h.kind]
      simp only [AppInfo.bootKind, wellKnownObjectCount]
      grind
    · rw [hmemory]
      rfl
    · rw [hmemory]
      rfl
    · rw [hmemory]
      exact app.isDevice_bootMemory i
  slots := by
    intro i hi
    rw [← hfits.slots] at hi
    rw [h.kind, ← hfits.memories]
    simp only [AppInfo.bootKind, wellKnownObjectCount]
    grind

/-- The Slots are the last entries, and there are no others. -/
theorem Booted.kind_slot_iff {app : AppInfo} {s : KState} (h : Booted app s) (hfits : app.CountsFit)
    (e : Nat) : s.kind e = .slot ↔ wellKnownObjectCount + app.mapCount ≤ e ∧
      e < wellKnownObjectCount + app.mapCount + app.extraSlotCount.toNat := by
  rw [h.kind, ← hfits.memories, ← hfits.slots]
  simp only [AppInfo.bootKind, wellKnownObjectCount]
  grind

namespace System

/-! ## Handing out slots -/

/-- Runs of the system program as its slot allocator sees them, with the indices handed out so
far, latest first.  Code in between leaves the counter alone. -/
inductive Handing (build : Build) : State → List Word → Prop where
  | start {σ : State} : σ.slotsUsed = 0#32 → Handing build σ []
  | other {σ σ' : State} {handed : List Word} :
      Handing build σ handed → σ'.slotsUsed = σ.slotsUsed → Handing build σ' handed
  | granted {σ σ' : State} {handed : List Word} {oti : Word} :
      Handing build σ handed → allocSlotInt build σ = .ok (some oti) σ' →
      Handing build σ' (oti :: handed)
  | refused {σ σ' : State} {handed : List Word} :
      Handing build σ handed → allocSlotInt build σ = .ok none σ' → Handing build σ' handed

/-- The allocator hands out the Slots of this table. -/
structure SlotsAgree (build : Build) (s : KState) : Prop where
  distinct : ∀ σ handed, Handing build σ handed → handed.Nodup
  inside : ∀ σ handed, Handing build σ handed → ∀ oti ∈ handed,
    oti.toNat < s.count ∧ s.kind oti.toNat = .slot
  /-- Exhaustion is reported when all of them have been handed out, and not before. -/
  all : ∀ σ handed, Handing build σ handed →
    ((∃ σ', allocSlotInt build σ = .ok none σ') ↔ handed.length = build.extraSlotCount.toNat)

section

variable {build : Build} {σ σ' : State} {handed : List Word} {oti : Word}

/-- The state after a slot has been handed out. -/
def State.granted (σ : State) : State := { σ with slotsUsed := σ.slotsUsed + 1#32 }

@[simp] theorem State.slotsUsed_granted (σ : State) : σ.granted.slotsUsed = σ.slotsUsed + 1#32 := rfl

theorem wp_allocSlotInt {Q : Option Word → State → Prop} {E : Stop → State → Prop} :
    wp (allocSlotInt build) Q E σ ↔
      if σ.slotsUsed = build.extraSlotCount then Q none σ
      else Q (some (σ.slotsUsed + build.fixedSlotCount)) σ.granted := by
  simp only [allocSlotInt, wp_bind, wp_get, wp_ite, wp_set, wp_pure]
  split
  next h => simp [h]
  next h => simp [h, State.granted]

theorem allocSlotInt_exhausted (h : σ.slotsUsed = build.extraSlotCount) :
    allocSlotInt build σ = .ok none σ := by
  have hrun : wp (allocSlotInt build) (fun r σ' => r = none ∧ σ' = σ) never σ := by
    rw [wp_allocSlotInt, if_pos h]
    exact ⟨rfl, rfl⟩
  obtain ⟨r, σ', hok, rfl, rfl⟩ := exists_ok hrun
  exact hok

theorem allocSlotInt_granted (h : σ.slotsUsed ≠ build.extraSlotCount) :
    allocSlotInt build σ = .ok (some (σ.slotsUsed + build.fixedSlotCount))
      σ.granted := by
  have hrun : wp (allocSlotInt build) (fun r σ' => r = some (σ.slotsUsed + build.fixedSlotCount) ∧
      σ' = σ.granted) never σ := by
    rw [wp_allocSlotInt, if_neg h]
    exact ⟨rfl, rfl⟩
  obtain ⟨r, σ', hok, rfl, rfl⟩ := exists_ok hrun
  exact hok

/-- The indices of the first `n` slots handed out. -/
def handedOut (build : Build) (n : Nat) : List Word :=
  ((List.range n).map fun i => BitVec.ofNat 32 i + build.fixedSlotCount).reverse

theorem handedOut_succ (build : Build) (n : Nat) :
    handedOut build (n + 1) = (BitVec.ofNat 32 n + build.fixedSlotCount) :: handedOut build n := by
  simp [handedOut, List.range_succ]

theorem length_handedOut (build : Build) (n : Nat) : (handedOut build n).length = n := by
  simp [handedOut]

/-- The counter tells what has been handed out. -/
theorem Handing.handed_eq (h : Handing build σ handed) :
    handed = handedOut build σ.slotsUsed.toNat ∧
      σ.slotsUsed.toNat ≤ build.extraSlotCount.toNat := by
  induction h with
  | start h0 =>
    rw [h0]
    exact ⟨rfl, Nat.zero_le _⟩
  | other _ hsame ih =>
    rw [hsame]
    exact ih
  | @granted σ σ' handed oti _ hgranted ih =>
    obtain ⟨hhanded, hle⟩ := ih
    by_cases hused : σ.slotsUsed = build.extraSlotCount
    · rw [allocSlotInt_exhausted hused] at hgranted
      simp at hgranted
    · rw [allocSlotInt_granted hused] at hgranted
      obtain ⟨rfl, rfl⟩ : σ.slotsUsed + build.fixedSlotCount = oti ∧
          σ.granted = σ' := by
        simpa using hgranted
      have hne : σ.slotsUsed.toNat ≠ build.extraSlotCount.toNat := fun h =>
        hused (BitVec.eq_of_toNat_eq h)
      have hnext : (σ.slotsUsed + 1#32).toNat = σ.slotsUsed.toNat + 1 := by
        have := build.extraSlotCount.isLt
        rw [BitVec.toNat_add, show (1#32).toNat = 1 from rfl, Nat.mod_eq_of_lt (by omega)]
      show _ = handedOut build (σ.slotsUsed + 1#32).toNat ∧ (σ.slotsUsed + 1#32).toNat ≤ _
      rw [hnext, handedOut_succ, ← hhanded, BitVec.ofNat_toNat, BitVec.setWidth_eq]
      exact ⟨rfl, by omega⟩
  | @refused σ σ' handed _ hrefused ih =>
    by_cases hused : σ.slotsUsed = build.extraSlotCount
    · rw [allocSlotInt_exhausted hused] at hrefused
      obtain rfl : σ = σ' := by simpa using hrefused
      exact ih
    · rw [allocSlotInt_granted hused] at hrefused
      simp at hrefused

/-- Any number of slots up to the count can be handed out. -/
theorem handing_handedOut (build : Build) (hstart : σ.slotsUsed = 0#32) {n : Nat}
    (hn : n ≤ build.extraSlotCount.toNat) :
    ∃ σ', Handing build σ' (handedOut build n) ∧ σ'.slotsUsed = BitVec.ofNat 32 n := by
  have hlt := build.extraSlotCount.isLt
  induction n with
  | zero => exact ⟨σ, .start hstart, hstart⟩
  | succ n ih =>
    obtain ⟨σ', hhanding, hused⟩ := ih (by omega)
    have hne : σ'.slotsUsed ≠ build.extraSlotCount := by
      rw [hused]
      intro h
      have := congrArg BitVec.toNat h
      rw [BitVec.toNat_ofNat, Nat.mod_eq_of_lt (by omega)] at this
      omega
    refine ⟨σ'.granted, ?_, ?_⟩
    · rw [handedOut_succ, ← hused]
      exact hhanding.granted (allocSlotInt_granted hne)
    · show σ'.slotsUsed + 1#32 = _
      rw [hused, BitVec.ofNat_add]

theorem Handing.nodup (h : Handing build σ handed) : handed.Nodup := by
  obtain ⟨rfl, hle⟩ := h.handed_eq
  have hlt := build.extraSlotCount.isLt
  rw [handedOut, List.nodup_reverse]
  apply List.Nodup.map_on _ List.nodup_range
  intro i hi j hj hij
  have hi := List.mem_range.mp hi
  have hj := List.mem_range.mp hj
  have hnat := congrArg BitVec.toNat ((BitVec.add_left_inj _).mp hij)
  rw [BitVec.toNat_ofNat, BitVec.toNat_ofNat, Nat.mod_eq_of_lt (by omega),
    Nat.mod_eq_of_lt (by omega)] at hnat
  exact hnat

theorem Handing.exhausted_iff (h : Handing build σ handed) :
    (∃ σ', allocSlotInt build σ = .ok none σ') ↔ handed.length = build.extraSlotCount.toNat := by
  obtain ⟨rfl, hle⟩ := h.handed_eq
  rw [length_handedOut, BitVec.toNat_inj]
  constructor
  · rintro ⟨σ', hnone⟩
    by_contra hne
    rw [allocSlotInt_granted hne] at hnone
    simp at hnone
  · intro hused
    exact ⟨σ, allocSlotInt_exhausted hused⟩

end

/-! ## Both layouts -/

/-- The system's build for the counts of a header. -/
def Build.ofApp (etl : Etl) (app : AppInfo) : Build where
  etl := etl
  memoryMapCount := app.memoryMapCount
  deviceMapCount := app.deviceMapCount
  extraSlotCount := app.extraSlotCount

/-- The system's program as it starts. -/
def State.initial (s : KState) : State where
  kernel := s
  ot := {}
  memRoots := fun _ => 0#32
  slotsUsed := 0#32

section

variable {app : AppInfo} {machine : Machine} {s : KState}

/-- The last index handed out is one past the table. -/
theorem toNat_last (etl : Etl) (hfits : app.CountsFit) (hsome : app.extraSlotCount ≠ 0#32) :
    (BitVec.ofNat 32 (app.extraSlotCount.toNat - 1) + (Build.ofApp etl app).fixedSlotCount).toNat =
      wellKnownObjectCount + app.mapCount + app.extraSlotCount.toNat := by
  have hpos : app.extraSlotCount.toNat ≠ 0 := fun h => hsome (BitVec.eq_of_toNat_eq h)
  rw [AppInfo.CountsFit, AppInfo.mapCount] at hfits
  rw [AppInfo.mapCount]
  simp only [Build.fixedSlotCount, Build.ofApp, wellKnownObjectCount, BitVec.toNat_add,
    BitVec.toNat_ofNat] at hfits ⊢
  omega

/-- Boot lays the table out as the header says; the slot allocator agrees with it exactly if there
are no Slots to hand out. -/
theorem slots_agree_iff (etl : Etl) (hboot : Boots app machine s) (hfits : app.CountsFit) :
    BootLayout app s ∧ SlotsAgree (Build.ofApp etl app) s ↔ app.extraSlotCount = 0#32 := by
  have hlayout := hboot.booted.layout hfits
  constructor
  · rintro ⟨-, hagree⟩
    by_contra hsome
    have hpos : app.extraSlotCount.toNat ≠ 0 := fun h => hsome (BitVec.eq_of_toNat_eq h)
    obtain ⟨σ, hhanding, -⟩ := handing_handedOut (Build.ofApp etl app) (σ := State.initial s)
      rfl (n := app.extraSlotCount.toNat) (le_refl _)
    rw [← Nat.sub_add_cancel (Nat.pos_of_ne_zero hpos), handedOut_succ] at hhanding
    have hinside := (hagree.inside σ _ hhanding _ List.mem_cons_self).1
    rw [toNat_last etl hfits hsome, hlayout.count] at hinside
    exact lt_irrefl _ hinside
  · intro hnone
    refine ⟨hlayout, ⟨fun σ handed h => h.nodup, fun σ handed h => ?_, fun σ handed h => h.exhausted_iff⟩⟩
    obtain ⟨rfl, hle⟩ := h.handed_eq
    have hused : σ.slotsUsed.toNat = 0 := by
      have hzero : (Build.ofApp etl app).extraSlotCount = 0#32 := hnone
      rw [hzero] at hle
      exact Nat.le_zero.mp hle
    rw [hused]
    intro oti hoti
    simp [handedOut] at hoti

end

/-! ### Samples -/

namespace SlotSample

/-- The sample application without Slots. -/
def app : AppInfo := { Sample.app with extraSlotCount := 0#32 }

theorem boots (app : AppInfo) (h : returned (startApp app Sample.machine {}) = true) :
    ∃ s, Boots app Sample.machine s :=
  ⟨_, eq_ok_of_returned h⟩

end SlotSample

theorem slots_agree_sample : ∃ s, Boots SlotSample.app Sample.machine s ∧
    BootLayout SlotSample.app s ∧ SlotsAgree (Build.ofApp Sample.etl SlotSample.app) s := by
  obtain ⟨s, hboot⟩ := SlotSample.boots SlotSample.app (by decide +kernel)
  exact ⟨s, hboot, (slots_agree_iff Sample.etl hboot (by unfold AppInfo.CountsFit; decide)).mpr rfl⟩

/-- With three Slots, entries 7 to 9, the indices handed out are 8 to 10 in a table of ten. -/
theorem slots_disagree : ∃ s, Boots Sample.app Sample.machine s ∧ s.count = 10 ∧
    s.kind 7 = .slot ∧ (∃ σ, Handing (Build.ofApp Sample.etl Sample.app) σ [10#32, 9#32, 8#32]) ∧
    ¬SlotsAgree (Build.ofApp Sample.etl Sample.app) s := by
  obtain ⟨s, hboot⟩ := SlotSample.boots Sample.app (by decide +kernel)
  have hlayout := hboot.booted.layout (by unfold AppInfo.CountsFit; decide)
  have hcount : s.count = 10 := hlayout.count
  obtain ⟨σ, hhanding, -⟩ := handing_handedOut (Build.ofApp Sample.etl Sample.app)
    (σ := State.initial {}) rfl (n := 3) (by decide)
  have hslot := hlayout.slots 0 (by decide)
  rw [show wellKnownObjectCount + Sample.app.mapCount + 0 = 7 from by decide] at hslot
  refine ⟨s, hboot, hcount, hslot, ⟨σ, hhanding⟩, fun hagree => ?_⟩
  have hinside := (hagree.inside σ _ hhanding _ List.mem_cons_self).1
  rw [hcount] at hinside
  revert hinside
  decide

end System

end BrittleKernel
