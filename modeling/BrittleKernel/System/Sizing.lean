import BrittleKernel.Runs
import BrittleKernel.System.Load
import BrittleKernel.System.Calls
import BrittleKernel.Lib.Blocks

/-!
# RAM Sizing

The RAM that the loader allocates for a program against what the program's header asks for.
The sum of data, BSS and stack is taken in 32 bits, and it is right exactly if it does not
wrap.
-/

namespace BrittleKernel.System

open Hoare

/-! ## Rounding up -/

/-- The bit smearing of `round_up_p2` reaches over the whole word. -/
theorem roundUpP2_smeared (v : Word) :
    ∃ x : Word, Blocks.Smeared (v - 1#32) x 32 ∧ roundUpP2 v = x + 1#32 :=
  ⟨_, (Blocks.Smeared.one (v - 1#32)).double.double.double.double.double, rfl⟩

theorem roundUpP2_zero : roundUpP2 0#32 = 0#32 := by
  decide

/-- Up to 2^31 the result is a power of two, and no smaller than the argument. -/
theorem roundUpP2_of_le {v : Word} (hpos : 0 < v.toNat) (hle : v.toNat ≤ 2 ^ 31) :
    ∃ n, n ≤ 31 ∧ (roundUpP2 v).toNat = 2 ^ n ∧ v.toNat ≤ 2 ^ n := by
  obtain ⟨x, hsmear, hx⟩ := roundUpP2_smeared v
  have hpred : (v - 1#32).toNat = v.toNat - 1 :=
    BitVec.toNat_sub_of_le (show 1 ≤ v.toNat from hpos)
  by_cases hone : v.toNat = 1
  · obtain rfl : v = 1#32 := BitVec.eq_of_toNat_eq hone
    exact ⟨0, by decide, by decide, by decide⟩
  · have hne : v - 1#32 ≠ 0#32 := by
      intro h
      have := congrArg BitVec.toNat h
      rw [hpred] at this
      simp at this
      omega
    have hnat := hsmear.toNat_eq hne
    rw [hpred] at hnat
    have hlog : (v.toNat - 1).log2 < 31 := (Nat.log2_lt (by omega)).mpr (by omega)
    have hpow : 2 ^ ((v.toNat - 1).log2 + 1) ≤ 2 ^ 31 := Nat.pow_le_pow_right (by decide) (by omega)
    have hpos' : 0 < 2 ^ ((v.toNat - 1).log2 + 1) := Nat.two_pow_pos _
    refine ⟨(v.toNat - 1).log2 + 1, by omega, ?_, ?_⟩
    · rw [hx, BitVec.toNat_add, hnat, show (1#32).toNat = 1 from rfl, Nat.sub_add_cancel hpos',
        Nat.mod_eq_of_lt (by omega)]
    · have := Nat.lt_log2_self (n := v.toNat - 1)
      omega

/-- Above 2^31 the result wraps to zero. -/
theorem roundUpP2_of_gt {v : Word} (hgt : 2 ^ 31 < v.toNat) : roundUpP2 v = 0#32 := by
  obtain ⟨x, hsmear, hx⟩ := roundUpP2_smeared v
  have hpred : (v - 1#32).toNat = v.toNat - 1 :=
    BitVec.toNat_sub_of_le (show 1 ≤ v.toNat by omega)
  have hne : v - 1#32 ≠ 0#32 := by
    intro h
    have := congrArg BitVec.toNat h
    rw [hpred] at this
    simp at this
    omega
  have hlog : (v.toNat - 1).log2 = 31 := by
    have hlow : 31 ≤ (v.toNat - 1).log2 := (Nat.le_log2 (by omega)).mpr (by omega)
    have hhigh : (v.toNat - 1).log2 < 32 := (Nat.log2_lt (by omega)).mpr (by omega)
    omega
  have hnat := hsmear.toNat_eq hne
  rw [hpred, hlog] at hnat
  rw [hx]
  exact BitVec.eq_of_toNat_eq (by rw [BitVec.toNat_add, hnat]; rfl)

/-! ## Trailing zeros -/

theorem ctz_of_two_pow {v : Word} {n : Nat} (hv : v.toNat = 2 ^ n) : (ctz v).toNat = n := by
  have hne : v ≠ 0#32 := by
    rintro rfl
    have := Nat.two_pow_pos n
    simp at hv
    omega
  have hbit : v.getLsbD (ctz v).toNat = true := BitVec.getLsbD_true_ctz_of_ne_zero hne
  rw [← BitVec.testBit_toNat, hv, Nat.testBit_two_pow] at hbit
  exact (of_decide_eq_true hbit).symm

theorem le_ctz_zero : 32 ≤ (ctz 0#32).toNat := by
  have h := mt BitVec.ctz_lt_iff_ne_zero.mp (not_not.mpr (rfl : 0#32 = 0#32))
  exact Nat.not_lt.mp h

/-! ## Sizes that can be allocated -/

section

variable {build : Build} {σ σ' : State} {k : Key} {target : Word} {brand : Brand} {hdr : Header}

/-- Blocks of less than 32 bytes or more than 2^31 are refused at once. -/
theorem allocMem_outside (hrange : ¬(4 ≤ target.toNat ∧ target.toNat < 31)) :
    allocMem build target brand σ = .ok none σ := by
  have hnone : wp (allocMem build target brand) (fun r σ' => r = none ∧ σ' = σ) never σ := by
    simp only [allocMem, wp_bind, wp_ite, wp_pure, wp_get, and_self, implies_true, true_and]
    intro hlarge
    have hlarge' : 4 ≤ target.toNat := BitVec.not_lt.mp hlarge
    have hempty : findRoot σ.memRoots target.toNat = none := by
      rw [findRoot, Nat.sub_eq_zero_of_le (show 31 ≤ target.toNat by omega)]
      rfl
    rw [hempty]
    exact ⟨rfl, rfl⟩
  obtain ⟨r, σ', hok, rfl, rfl⟩ := exists_ok hnone
  exact hok

theorem getRamSize_zero_or_pow (hdr : Header) :
    hdr.getRamSize = 0#32 ∨ ∃ n, n ≤ 31 ∧ hdr.getRamSize.toNat = 2 ^ n ∧
      (hdr.bssEnd - hdr.textEnd + hdr.stackSize).toNat ≤ 2 ^ n := by
  by_cases hgt : 2 ^ 31 < (hdr.bssEnd - hdr.textEnd + hdr.stackSize).toNat
  · exact .inl (roundUpP2_of_gt hgt)
  · by_cases hpos : 0 < (hdr.bssEnd - hdr.textEnd + hdr.stackSize).toNat
    · exact .inr (roundUpP2_of_le hpos (Nat.not_lt.mp hgt))
    · left
      rw [Header.getRamSize,
        BitVec.eq_of_toNat_eq (y := 0#32) (Nat.le_zero.mp (Nat.not_lt.mp hpos)), roundUpP2_zero]

/-- Less than 32 bytes of RAM are not to be had. -/
theorem allocMem_small (h : hdr.getRamSize.toNat < 32) :
    allocMem build (ctz hdr.getRamSize - 1#32) brand σ = .ok none σ := by
  apply allocMem_outside
  rintro ⟨hlow, hhigh⟩
  have hbound := (ctz hdr.getRamSize).isLt
  rw [BitVec.toNat_sub] at hlow hhigh
  obtain hzero | ⟨n, -, hsize, -⟩ := getRamSize_zero_or_pow hdr
  · have hctz := le_ctz_zero
    rw [← hzero] at hctz
    simp at hlow hhigh
    omega
  · rw [ctz_of_two_pow hsize] at hlow hhigh
    rw [hsize] at h
    have hn : n < 5 := (Nat.pow_lt_pow_iff_right (by decide : 1 < 2)).mp (h.trans_eq (by decide))
    interval_cases n <;> simp at hlow hhigh

/-- If the loader gets RAM, the rounded size is a power of two of at least 32 bytes, and the
32-bit sum was not above it. -/
theorem getRamSize_of_allocMem
    (h : allocMem build (ctz hdr.getRamSize - 1#32) brand σ = .ok (some k) σ') :
    ∃ n, 5 ≤ n ∧ n ≤ 31 ∧ hdr.getRamSize.toNat = 2 ^ n ∧
      (hdr.bssEnd - hdr.textEnd + hdr.stackSize).toNat ≤ 2 ^ n := by
  obtain hzero | ⟨n, hn, hsize, hfits⟩ := getRamSize_zero_or_pow hdr
  · rw [allocMem_small (by rw [hzero]; decide)] at h
    simp at h
  · refine ⟨n, ?_, hn, hsize, hfits⟩
    by_contra hsmall
    have hlt : 2 ^ n < 2 ^ 5 := Nat.pow_lt_pow_right (by decide) (by omega)
    rw [allocMem_small (by omega)] at h
    simp at h

end

/-! ## Valid headers -/

/-- What `is_valid` makes sure of. -/
structure Header.Valid (hdr : Header) : Prop where
  imageSize : 4 ∣ hdr.imageSize.toNat
  textEnd : 4 ∣ hdr.textEnd.toNat
  gotEnd : 4 ∣ hdr.gotEnd.toNat
  bssEnd : 4 ∣ hdr.bssEnd.toNat
  stackSize : 4 ∣ hdr.stackSize.toNat
  entry : hdr.entry.toNat < hdr.textEnd.toNat
  text_le_got : hdr.textEnd.toNat ≤ hdr.gotEnd.toNat
  got_le_image : hdr.gotEnd.toNat ≤ hdr.imageSize.toNat
  image_le_bss : hdr.imageSize.toNat ≤ hdr.bssEnd.toNat
  frame : 32 ≤ hdr.stackSize.toNat

theorem and_three_eq_zero_iff {w : Word} : w &&& 3#32 = 0#32 ↔ 4 ∣ w.toNat := by
  rw [← BitVec.toNat_inj, BitVec.toNat_and]
  exact Blocks.and_pred_eq_zero_iff (l := 2)

theorem Header.valid_of_isValid {hdr : Header} (h : hdr.isValid = true) : hdr.Valid := by
  simp only [isValid, Bool.and_eq_true, beq_iff_eq, decide_eq_true_eq, BitVec.lt_def,
    BitVec.le_def] at h
  obtain ⟨⟨⟨⟨⟨⟨⟨⟨⟨⟨himage, htext⟩, hgot⟩, hbss⟩, hstack⟩, -⟩, hentry⟩, hgi⟩, htg⟩, hib⟩, hframe⟩ := h
  rw [and_three_eq_zero_iff] at himage htext hgot hbss hstack
  exact ⟨himage, htext, hgot, hbss, hstack, hentry, htg, hgi, hib, hframe⟩

/-- What a program needs, in exact arithmetic. -/
def Header.needed (hdr : Header) : Nat :=
  hdr.bssEnd.toNat - hdr.textEnd.toNat + hdr.stackSize.toNat

theorem Header.Valid.toNat_sum {hdr : Header} (h : hdr.Valid) (hfits : hdr.needed < 2 ^ 32) :
    (hdr.bssEnd - hdr.textEnd + hdr.stackSize).toNat = hdr.needed := by
  have hle : hdr.textEnd.toNat ≤ hdr.bssEnd.toNat :=
    h.text_le_got.trans (h.got_le_image.trans h.image_le_bss)
  rw [BitVec.toNat_add, BitVec.toNat_sub_of_le hle]
  exact Nat.mod_eq_of_lt hfits

/-! ## Sufficient RAM -/

/-- The RAM of a program holds everything that the header asks for. -/
structure RamSufficient (build : Build) (hdr : Header) : Prop where
  power : ∃ n, 5 ≤ n ∧ hdr.getRamSize.toNat = 2 ^ n
  needed : hdr.needed ≤ hdr.getRamSize.toNat
  /-- Filling a block of that size never pokes beyond its end. -/
  pokes : ∀ (σ : State) (imgKey kRam : Key) (imgBase imgSize ramBase imgAddr imgOffset : Word),
    σ.HasBlock imgKey imgBase imgSize → σ.HasBlock kRam ramBase hdr.getRamSize →
    wp (fillRam build hdr imgAddr imgOffset imgKey kRam) (fun _ _ => True)
      (fun stop _ => ∀ offset word, stop ≠ .assertion kRam (request 6#16 offset word)) σ
  /-- Data and BSS end where the stack area begins at the latest, and the exception frame on top
  lies within the stack area. -/
  stack : hdr.bssEnd.toNat - hdr.textEnd.toNat ≤ hdr.getRamSize.toNat - hdr.stackSize.toNat ∧
    hdr.getRamSize.toNat - hdr.stackSize.toNat ≤ hdr.getRamSize.toNat - exceptionFrameSize.toNat ∧
    hdr.stackSize.toNat ≤ hdr.getRamSize.toNat
  /-- GOT entries for the RAM segment point into the program's own block. -/
  relocated : ∀ imgAddr ramBase entry : Word, ramBase.toNat + hdr.getRamSize.toNat ≤ 2 ^ 32 →
    hdr.textEnd ≤ entry → entry < hdr.bssEnd →
    ramBase.toNat ≤ (relocateGotEntry hdr imgAddr ramBase entry).toNat ∧
      (relocateGotEntry hdr imgAddr ramBase entry).toNat < ramBase.toNat + hdr.getRamSize.toNat

/-! ### The loops -/

section

variable {build : Build} {σ : State} {hdr : Header} {imgKey kRam : Key}
  {imgBase imgSize ramBase imgAddr imgOffset : Word} {ramSize : Word}

/-- No poke to the RAM failed. -/
def PokesInside (kRam : Key) (stop : Stop) : Prop :=
  ∀ offset word, stop ≠ .assertion kRam (request 6#16 offset word)

theorem PokesInside.peek (k : Key) (offset : Word) :
    PokesInside kRam (.assertion k (request 5#16 offset)) := by
  intro offset' word h
  injection h with _ hm
  have hsel := congrArg (fun m : Message => m.desc.getSelector) hm
  simp only [getSelector_request] at hsel
  contradiction

/-- The keys that filling works with stay good. -/
def Filling (imgKey kRam : Key) (imgBase imgSize ramBase ramSize : Word) (σ : State) : Prop :=
  σ.HasBlock imgKey imgBase imgSize ∧ σ.HasBlock kRam ramBase ramSize

theorem Filling.of_sameTables {σ' : State} (hsame : σ.SameTables σ')
    (h : Filling imgKey kRam imgBase imgSize ramBase ramSize σ) :
    Filling imgKey kRam imgBase imgSize ramBase ramSize σ' :=
  ⟨hsame.hasBlock h.1, hsame.hasBlock h.2⟩

theorem copyData_inside (textWords : Word) {dataWords : Word}
    (hfits : dataWords.toNat ≤ (ramSize / 4#32).toNat)
    (h : Filling imgKey kRam imgBase imgSize ramBase ramSize σ) :
    wp (copyData build imgKey kRam imgOffset textWords dataWords)
      (fun _ σ' => Filling imgKey kRam imgBase imgSize ramBase ramSize σ')
      (fun stop _ => PokesInside kRam stop) σ := by
  refine wp_forM (fun dOff hd σ h => ?_) h
  have hd : dOff < dataWords.toNat := List.mem_range.mp hd
  have hin : BitVec.ofNat 32 dOff < ramSize / 4#32 := by
    rw [BitVec.lt_def, BitVec.toNat_ofNat, Nat.mod_eq_of_lt (by omega)]
    omega
  rw [wp_bind, h.1.wp_peek]
  split
  · have hafter := h.of_sameTables (σ.sameTables_consulted imgKey)
    rw [hafter.2.wp_poke, if_pos hin]
    exact hafter.of_sameTables (State.sameTables_poked _ _ _ _)
  · exact PokesInside.peek _ _

theorem zeroRest_inside {dataWords : Word} (h : Filling imgKey kRam imgBase imgSize ramBase ramSize σ) :
    wp (zeroRest build kRam dataWords (ramSize / 4#32))
      (fun _ σ' => Filling imgKey kRam imgBase imgSize ramBase ramSize σ')
      (fun stop _ => PokesInside kRam stop) σ := by
  refine wp_forM (fun dOff hd σ h => ?_) h
  obtain ⟨hlow, hhigh⟩ := List.mem_range'_1.mp hd
  have hin : BitVec.ofNat 32 dOff < ramSize / 4#32 := by
    have := (ramSize / 4#32).isLt
    rw [BitVec.lt_def, BitVec.toNat_ofNat, Nat.mod_eq_of_lt (by omega)]
    omega
  rw [h.2.wp_poke, if_pos hin]
  exact h.of_sameTables (State.sameTables_poked _ _ _ _)

theorem relocateGot_inside {gotWords base : Word} (hfits : gotWords.toNat ≤ (ramSize / 4#32).toNat)
    (h : Filling imgKey kRam imgBase imgSize ramBase ramSize σ) :
    wp (relocateGot build hdr imgAddr base kRam gotWords)
      (fun _ σ' => Filling imgKey kRam imgBase imgSize ramBase ramSize σ')
      (fun stop _ => PokesInside kRam stop) σ := by
  refine wp_forM (fun dOff hd σ h => ?_) h
  have hd : dOff < gotWords.toNat := List.mem_range.mp hd
  have hin : BitVec.ofNat 32 dOff < ramSize / 4#32 := by
    rw [BitVec.lt_def, BitVec.toNat_ofNat, Nat.mod_eq_of_lt (by omega)]
    omega
  rw [wp_bind, h.2.wp_peek, if_pos hin]
  have hafter := h.of_sameTables (σ.sameTables_consulted kRam)
  rw [hafter.2.wp_poke, if_pos hin]
  exact hafter.of_sameTables (State.sameTables_poked _ _ _ _)

/-- All of the filling, in a block that holds what the header asks for. -/
theorem fillRam_inside (hvalid : hdr.Valid) (hneeded : hdr.needed ≤ hdr.getRamSize.toNat)
    (h : Filling imgKey kRam imgBase imgSize ramBase hdr.getRamSize σ) :
    wp (fillRam build hdr imgAddr imgOffset imgKey kRam) (fun _ _ => True)
      (fun stop _ => PokesInside kRam stop) σ := by
  have hframe := hvalid.frame
  have htg := hvalid.text_le_got
  have hgi := hvalid.got_le_image
  have hib := hvalid.image_le_bss
  have hquarter : ∀ w : Word, (w / 4#32).toNat = w.toNat / 4 := fun w => BitVec.toNat_udiv
  have hsize : hdr.bssEnd.toNat - hdr.textEnd.toNat + 32 ≤ hdr.getRamSize.toNat := by
    have : hdr.needed = hdr.bssEnd.toNat - hdr.textEnd.toNat + hdr.stackSize.toNat := rfl
    omega
  have hdata : (hdr.imageSize / 4#32 - hdr.textEnd / 4#32).toNat ≤ (hdr.getRamSize / 4#32).toNat := by
    rw [BitVec.toNat_sub_of_le (by rw [BitVec.le_def, hquarter, hquarter]; omega), hquarter, hquarter,
      hquarter]
    omega
  have hgot : (hdr.gotEnd / 4#32 - hdr.textEnd / 4#32).toNat ≤ (hdr.getRamSize / 4#32).toNat := by
    rw [BitVec.toNat_sub_of_le (by rw [BitVec.le_def, hquarter, hquarter]; omega), hquarter, hquarter,
      hquarter]
    omega
  have htop : ∀ n : Word, 0 < n.toNat → n.toNat ≤ 8 →
      hdr.getRamSize / 4#32 - n < hdr.getRamSize / 4#32 := by
    intro n hpos hn
    rw [BitVec.lt_def, BitVec.toNat_sub_of_le (by rw [BitVec.le_def, hquarter]; omega), hquarter]
    omega
  simp only [fillRam, wp_bind]
  -- The three loops, one after the other.
  refine wp_mono (copyData_inside _ hdata h) (fun _ σ₁ h₁ => ?_) fun _ _ h => h
  refine wp_mono (zeroRest_inside h₁) (fun _ σ₂ h₂ => ?_) fun _ _ h => h
  rw [wp_memoryInspect h₂.2.live h₂.2.kind]
  have h₂' := h₂.of_sameTables (σ₂.sameTables_consulted kRam)
  refine wp_mono (relocateGot_inside hgot h₂') (fun _ σ₃ h₃ => ?_) fun _ _ h => h
  -- The exception frame at the other end.
  rw [h₃.2.wp_poke, if_pos (htop 1#32 (by decide) (by decide))]
  have h₄ := h₃.of_sameTables (State.sameTables_poked σ₃ kRam
    (ramBase + 4#32 * (hdr.getRamSize / 4#32 - 1#32)) (1#32 <<< 24))
  rw [h₄.2.wp_poke, if_pos (htop 2#32 (by decide) (by decide))]
  trivial

end

/-! ### When the RAM suffices -/

section

variable {build : Build} {σ σ' : State} {hdr : Header} {kRam : Key} {brand : Brand}

theorem ramSufficient_of_needed (hvalid : hdr.Valid) {n : Nat} (hn : 5 ≤ n)
    (hsize : hdr.getRamSize.toNat = 2 ^ n) (hneeded : hdr.needed ≤ hdr.getRamSize.toNat) :
    RamSufficient build hdr where
  power := ⟨n, hn, hsize⟩
  needed := hneeded
  pokes σ imgKey kRam imgBase imgSize ramBase imgAddr imgOffset himg hram :=
    fillRam_inside hvalid hneeded ⟨himg, hram⟩
  stack := by
    have hframe := hvalid.frame
    have hneeded' : hdr.bssEnd.toNat - hdr.textEnd.toNat + hdr.stackSize.toNat ≤
        hdr.getRamSize.toNat := hneeded
    have hexception : exceptionFrameSize.toNat = 32 := rfl
    omega
  relocated := by
    intro imgAddr ramBase entry hblock htext hbss
    have hneeded' : hdr.bssEnd.toNat - hdr.textEnd.toNat + hdr.stackSize.toNat ≤
        hdr.getRamSize.toNat := hneeded
    have htext' : hdr.textEnd.toNat ≤ entry.toNat := htext
    have hbss' : entry.toNat < hdr.bssEnd.toNat := hbss
    rw [relocateGotEntry, if_neg (BitVec.not_lt.mpr htext), if_pos hbss, BitVec.toNat_add,
      BitVec.toNat_sub_of_le htext, Nat.mod_eq_of_lt (by omega)]
    omega

/-- For a valid header that the loader gets RAM for, that RAM suffices exactly if the sum of data,
BSS and stack does not wrap. -/
theorem ram_sufficient_iff (hvalid : hdr.isValid = true)
    (halloc : allocMem build (ctz hdr.getRamSize - 1#32) brand σ = .ok (some kRam) σ') :
    RamSufficient build hdr ↔ hdr.needed < 2 ^ 32 := by
  have hvalid' := Header.valid_of_isValid hvalid
  constructor
  · intro h
    exact h.needed.trans_lt hdr.getRamSize.isLt
  · intro hfits
    obtain ⟨n, hn, -, hsize, hsum⟩ := getRamSize_of_allocMem halloc
    rw [hvalid'.toNat_sum hfits] at hsum
    exact ramSufficient_of_needed hvalid' hn hsize (hsum.trans hsize.ge)

end

/-! ### Samples -/

namespace SizingSample

def build : Build := ⟨Sample.etl, 3#32, 1#32, 10#32⟩

/-- One free block of 32 bytes, in entry 3. -/
def state : State where
  kernel :=
    { count := 8
      kind := fun e => if e = 1 then .objectTable else if e = 3 then .memory else .slot
      memory := fun _ => { base := 0x20000000#32, size := 32#32, attributes := 0x402#32 } }
  ot := ⟨0#64, 0#32, some 1⟩
  memRoots := fun l => if l = 4 then 3#32 else 0#32
  slotsUsed := 0#32

theorem state_hasHead : state.HasHead 4 :=
  ⟨⟨rfl, rfl⟩, by decide, rfl, by decide⟩

/-- The loader gets the block for any header that asks for 32 bytes. -/
theorem allocMem_state {hdr : Header} (h : hdr.getRamSize.toNat = 2 ^ 5) :
    allocMem build (ctz hdr.getRamSize - 1#32) 0x030000#64 state =
      .ok (some (state.kernel.filled 3 0x030000#64)) (state.taken 4 0x030000#64) := by
  have hctz : ctz hdr.getRamSize = 5#32 := BitVec.eq_of_toNat_eq (ctz_of_two_pow h)
  rw [hctz]
  exact allocMem_of_head (l := 4) (by decide) (by decide) state_hasHead (by decide)

/-- Code only, and a stack of one exception frame. -/
def fits : Header := ⟨4#32, 4#32, 4#32, 4#32, 32#32, 0#32⟩

/-- Almost 4 GiB of BSS; with the stack the sum wraps to 32 bytes. -/
def wraps : Header := ⟨4#32, 4#32, 4#32, 0xFFFFFF04#32, 0x120#32, 0#32⟩

end SizingSample

theorem ram_sufficient_sample : RamSufficient SizingSample.build SizingSample.fits :=
  (ram_sufficient_iff (by decide) (SizingSample.allocMem_state (by decide))).mpr (by decide)

/-- A valid header for which the loader gets 32 bytes of RAM, where almost 4 GiB are needed. -/
theorem ram_insufficient :
    SizingSample.wraps.isValid = true ∧
      (∃ kRam σ', allocMem SizingSample.build (ctz SizingSample.wraps.getRamSize - 1#32) 0x030000#64
        SizingSample.state = .ok (some kRam) σ') ∧
      ¬RamSufficient SizingSample.build SizingSample.wraps := by
  refine ⟨by decide, ⟨_, _, SizingSample.allocMem_state (by decide)⟩, fun h => ?_⟩
  have := h.needed
  revert this
  decide

end BrittleKernel.System
