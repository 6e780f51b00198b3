import BrittleKernel.System.Ownership

/-!
# Inflating Programs

What the loader leaves behind when it succeeds: the program's RAM word by word, the Context that
is to run it, and everything else as it was.
-/

namespace BrittleKernel

open Hoare KState

/-! ## Becoming a Context -/

section

variable {cfg : Config} {e : TableIndex} {brand : Brand} {m : Message} {k : Keys} {s : KState}

/-- Become with the type code of a Context is refused, or the entry is a Context afterwards. -/
theorem wp_become {Q : ReplySender → KState → Prop} {E : Panic → KState → Prop}
    (hcfg : cfg.eagerRevocation = false) (htype : m.d0 = 0#32)
    (hm : MemoryMethod.ofSelector m.desc.getSelector = some .become)
    (hrefused : ∀ x, Q (.failure x) s)
    (hbuilt : (s.memory e).parent = none → Q
      (({} : ReplySender).setKey 1 ((s.becomeObject e .context m.d1).filled e 0#64))
      (s.becomeObject e .context m.d1)) : wp (Memory.serve cfg e brand m k) Q E s := by
  have hcode : TypeCode.ofWord m.d0 = some .context := by
    rw [htype]
    rfl
  simp only [Memory.serve, hm, become, wp_bind, wp_get, wp_ite, wp_pure, hcode]
  refine ⟨fun _ => hrefused _, fun _ => ⟨fun _ => hrefused _, fun hmay => ⟨fun _ => hrefused _, ?_⟩⟩⟩
  intro _
  simp only [Bool.or_eq_true, not_or, decide_eq_true_eq, not_not, Bool.not_eq_true',
    Bool.not_eq_false, Bool.not_eq_true, Option.isSome_eq_false_iff, Option.isNone_iff_eq_none] at hmay
  obtain ⟨⟨⟨-, hleaf⟩, hroot⟩, -⟩ := hmay
  have horphan : s.orphan e = s := by
    simp [orphan, hroot]
  rw [wp_destroy hleaf, horphan, wp_advanceGeneration hcfg]
  simp only [TypeCode.construct, wp_modify, makeKey, maybeRef, wp_get, wp_pure, wp_bind,
    wp_applyToMpu]
  exact hbuilt hroot

end

namespace System

/-- A block's entry is a Context from then on. -/
structure State.Donated (σ σ' : State) (e : TableIndex) : Prop where
  ot : σ'.ot = σ.ot
  memRoots : σ'.memRoots = σ.memRoots
  count : σ'.kernel.count = σ.kernel.count
  kind : σ'.kernel.kind = Function.update σ.kernel.kind e .context
  generation : σ'.kernel.generation =
    Function.update σ.kernel.generation e (σ.kernel.generation e + 1#32)
  memory : σ'.kernel.memory = σ.kernel.memory
  ram : σ'.kernel.ram = σ.kernel.ram

theorem State.Donated.sameEntry {σ σ' : State} {e e' : TableIndex} (h : σ.Donated σ' e)
    (he : e' ≠ e) : σ.SameEntry σ' e' :=
  ⟨by rw [h.kind, Function.update_of_ne he], by rw [h.generation, Function.update_of_ne he],
    by rw [h.memory]⟩

theorem State.donated_becomeObject (σ : State) (s : KState) (hs : σ.SameTables (σ.over s))
    (hram : s.ram = σ.kernel.ram) (e : TableIndex) (argument : Word) :
    σ.Donated (σ.over (s.becomeObject e .context argument)) e := by
  constructor
  · rfl
  · rfl
  · exact hs.count
  · show Function.update s.kind e .context = _
    rw [show s.kind = σ.kernel.kind from hs.kind]
  · show Function.update s.generation e (s.generation e + 1#32) = _
    rw [show s.generation = σ.kernel.generation from hs.generation]
  · exact hs.memory
  · exact hram

section

variable {build : Build} {σ : State} {k : Key}

theorem wp_memoryBecome {Q : Key → State → Prop} (hlive : σ.kernel.isLive k = true)
    (hkind : σ.kernel.kind (σ.kernel.target k) = .memory)
    (hQ : ∀ σ', σ.Donated σ' (σ.kernel.target k) → Q (σ'.kernel.filled (σ.kernel.target k) 0#64) σ') :
    wp (memoryBecome build k 0#32 0#32) Q (fun _ _ => True) σ := by
  have hm : MemoryMethod.ofSelector (request 4#16 0#32 0#32).desc.getSelector = some .become := by
    rw [getSelector_request]
    rfl
  rw [memoryBecome, wp_bind, wp_callAsserting, wp_callMemory hlive hkind]
  apply wp_become rfl rfl hm
  · intro x
    refine ⟨fun _ => trivial, fun hnone => ?_⟩
    rw [getError_failure] at hnone
    contradiction
  · intro _
    refine ⟨fun _ => trivial, fun _ => ?_⟩
    exact hQ _ (σ.donated_becomeObject _ (σ.sameTables_consulted k) rfl _ _)

end

/-! ## Words of a block -/

/-- Only the range of this Memory is written. -/
structure State.Writes (σ σ' : State) (m : Memory) : Prop where
  same : σ.SameTables σ'
  memRoots : σ'.memRoots = σ.memRoots
  ram : ∀ a, ¬m.Covers a → σ'.kernel.ram a = σ.kernel.ram a

/-- The first `n` words from an address on. -/
def State.Words (σ : State) (base : Word) (n : Nat) (w : Nat → Word) : Prop :=
  ∀ i < n, σ.kernel.loadWord (base + 4#32 * BitVec.ofNat 32 i) = w i

/-- The address of a word inside a range. -/
theorem toNat_wordAddr {base size offset : Word} (hend : base.toNat + size.toNat ≤ 2 ^ 32)
    (hin : offset < size / 4#32) :
    (base + 4#32 * offset).toNat = base.toNat + 4 * offset.toNat ∧
      4 * offset.toNat + 4 ≤ size.toNat := by
  rw [BitVec.lt_def, BitVec.toNat_udiv, show (4#32 : Word).toNat = 4 from rfl] at hin
  have hroom : 4 * offset.toNat + 4 ≤ size.toNat := by
    omega
  refine ⟨?_, hroom⟩
  rw [BitVec.toNat_add, BitVec.toNat_mul, show (4#32 : Word).toNat = 4 from rfl]
  omega

section

variable {σ σ' σ'' : State} {m : Memory} {base size : Word} {w w' : Nat → Word} {n : Nat}

theorem State.Writes.refl (σ : State) (m : Memory) : σ.Writes σ m :=
  ⟨⟨rfl, rfl, rfl, rfl, rfl⟩, rfl, fun _ _ => rfl⟩

theorem State.Writes.trans (h : σ.Writes σ' m) (h' : σ'.Writes σ'' m) : σ.Writes σ'' m :=
  ⟨h.same.trans h'.same, h'.memRoots.trans h.memRoots, fun a ha => (h'.ram a ha).trans (h.ram a ha)⟩

theorem State.writes_consulted (σ : State) (k : Key) (m : Memory) : σ.Writes (σ.consulted k) m :=
  ⟨σ.sameTables_consulted k, rfl, fun _ _ => rfl⟩

/-- A word of a range whose bytes stay. -/
theorem loadWord_of_covered {s s' : KState} (hbytes : ∀ a, m.Covers a → s'.ram a = s.ram a) {a : Word}
    (hlow : m.base.toNat ≤ a.toNat) (hhigh : a.toNat + 4 ≤ m.base.toNat + m.size.toNat)
    (hend : m.base.toNat + m.size.toNat ≤ 2 ^ 32) : s'.loadWord a = s.loadWord a := by
  have hbyte : ∀ i : Word, i.toNat < 4 → s'.ram (a + i) = s.ram (a + i) := by
    intro i hi
    apply hbytes
    rw [Memory.Covers, BitVec.toNat_add]
    omega
  have hzero := hbyte 0#32 (by decide)
  rw [BitVec.add_zero] at hzero
  rw [KState.loadWord, KState.loadWord, hzero, hbyte 1#32 (by decide), hbyte 2#32 (by decide),
    hbyte 3#32 (by decide)]

/-- A poke stays in its block. -/
theorem State.writes_poked (σ : State) (k : Key) {offset : Word} (word : Word)
    (hend : m.base.toNat + m.size.toNat ≤ 2 ^ 32) (hin : offset < m.size / 4#32) :
    σ.Writes (σ.poked k (m.base + 4#32 * offset) word) m := by
  obtain ⟨haddr, hroom⟩ := toNat_wordAddr hend hin
  refine ⟨σ.sameTables_poked _ _ _, rfl, fun a ha => ?_⟩
  have hout : (σ.poked k (m.base + 4#32 * offset) word).kernel.ram a =
      (σ.consulted k).kernel.ram a := by
    apply ram_storeWord_of_ne
    · omega
    · rw [Memory.Covers] at ha
      omega
  exact hout

theorem State.Words.congr (h : σ.Words base n w) (hw : ∀ i < n, w i = w' i) : σ.Words base n w' := by
  intro i hi
  rw [h i hi, hw i hi]

/-- A poke replaces one word. -/
theorem State.Words.poked (h : σ.Words base (size.toNat / 4) w) (k : Key) {offset : Word} (word : Word)
    (hend : base.toNat + size.toNat ≤ 2 ^ 32) (hin : offset < size / 4#32) :
    (σ.poked k (base + 4#32 * offset) word).Words base (size.toNat / 4)
      (Function.update w offset.toNat word) := by
  obtain ⟨haddr, hroom⟩ := toNat_wordAddr hend hin
  intro i hi
  by_cases heq : i = offset.toNat
  · subst heq
    rw [Function.update_self, BitVec.ofNat_toNat, BitVec.setWidth_eq]
    exact KState.loadWord_storeWord _ _ _
  · have hi' : (BitVec.ofNat 32 i).toNat = i := by
      rw [BitVec.toNat_ofNat, Nat.mod_eq_of_lt (by omega)]
    have hother : BitVec.ofNat 32 i < size / 4#32 := by
      rw [BitVec.lt_def, hi', BitVec.toNat_udiv]
      exact hi
    obtain ⟨haddr', hroom'⟩ := toNat_wordAddr hend hother
    rw [hi'] at haddr' hroom'
    rw [Function.update_of_ne heq, ← h i hi]
    have hload : (σ.poked k (base + 4#32 * offset) word).kernel.loadWord
        (base + 4#32 * BitVec.ofNat 32 i) =
          (σ.consulted k).kernel.loadWord (base + 4#32 * BitVec.ofNat 32 i) := by
      apply KState.loadWord_storeWord_of_ne
      · omega
      · omega
      · omega
    exact hload

end

/-! ## The loops -/

/-- Only this Memory has been written, and these are its words. -/
structure State.Holds (σ σ' : State) (m : Memory) (w : Nat → Word) : Prop where
  writes : σ.Writes σ' m
  words : σ'.Words m.base (m.size.toNat / 4) w

section

variable {build : Build} {σ σ₁ σ' : State} {m img : Memory} {imgKey kRam : Key} {w w' f : Nat → Word}

theorem State.Holds.congr (h : σ.Holds σ' m w) (hw : ∀ i < m.size.toNat / 4, w i = w' i) :
    σ.Holds σ' m w' :=
  ⟨h.writes, h.words.congr hw⟩

theorem State.Holds.consulted (h : σ.Holds σ' m w) (k : Key) : σ.Holds (σ'.consulted k) m w :=
  ⟨h.writes.trans (σ'.writes_consulted k m), h.words⟩

theorem State.Holds.wp_poke {Q : Unit → State → Prop} {offset word : Word} (h : σ.Holds σ' m w)
    (hram : σ.HasBlock kRam m.base m.size) (hend : m.base.toNat + m.size.toNat ≤ 2 ^ 32)
    (hQ : ∀ σ'', σ.Holds σ'' m (Function.update w offset.toNat word) → Q () σ'') :
    wp (memoryPoke build kRam offset word) Q (fun _ _ => True) σ' := by
  rw [(h.writes.same.hasBlock hram).wp_poke]
  split
  next hin =>
    apply hQ
    exact ⟨h.writes.trans (σ'.writes_poked kRam word hend hin), h.words.poked kRam word hend hin⟩
  next => trivial

/-- A loop whose turns each poke one word, and nothing before. -/
theorem wp_pokeEach (build : Build) {start n : Nat} {body : Nat → Sys Unit} (hram : σ.HasBlock kRam m.base m.size)
    (hend : m.base.toNat + m.size.toNat ≤ 2 ^ 32) (hsmall : start + n ≤ 2 ^ 32)
    (hbody : ∀ i < start + n, ∀ w' σ' Q, w' i = w i → σ.Holds σ' m w' →
      (∀ σ'', σ.Holds σ'' m w' →
        wp (memoryPoke build kRam (BitVec.ofNat 32 i) (f i)) Q (fun _ _ => True) σ'') →
      wp (body i) Q (fun _ _ => True) σ')
    (h : σ.Holds σ₁ m w) :
    wp ((List.range' start n).forM body)
      (fun _ σ' => σ.Holds σ' m fun j => if start ≤ j ∧ j < start + n then f j else w j)
      (fun _ _ => True) σ₁ := by
  apply wp_forM_range' (I := fun i σ' => σ.Holds σ' m fun j => if start ≤ j ∧ j < i then f j else w j)
  · intro i hlow hhigh σ' hi
    -- The word that is poked next is still what it was.
    apply hbody i hhigh _ σ' _ (if_neg fun hlt => Nat.lt_irrefl i hlt.2) hi
    intro σ₂ h₂
    apply h₂.wp_poke hram hend
    intro σ₃ h₃
    have hword : (BitVec.ofNat 32 i).toNat = i := by
      rw [BitVec.toNat_ofNat, Nat.mod_eq_of_lt (by omega)]
    rw [hword] at h₃
    apply h₃.congr
    intro j _
    by_cases hj : j = i
    · subst hj
      rw [Function.update_self, if_pos ⟨hlow, Nat.lt_succ_self j⟩]
    · rw [Function.update_of_ne hj]
      have hiff : (start ≤ j ∧ j < i) ↔ (start ≤ j ∧ j < i + 1) := by
        omega
      simp only [hiff]
  · apply h.congr
    intro j _
    rw [if_neg (by omega)]

theorem wp_copyData {imgOffset textWords dataWords : Word} {data : Nat → Word}
    (himg : σ.HasBlock imgKey img.base img.size)
    (hapart : img.Apart m) (himgEnd : img.base.toNat + img.size.toNat ≤ 2 ^ 32)
    (hdata : ∀ i < dataWords.toNat, imgOffset + textWords + BitVec.ofNat 32 i < img.size / 4#32 →
      σ.kernel.loadWord (img.base + 4#32 * (imgOffset + textWords + BitVec.ofNat 32 i)) = data i)
    (hram : σ.HasBlock kRam m.base m.size) (hend : m.base.toNat + m.size.toNat ≤ 2 ^ 32)
    (h : σ.Holds σ₁ m w) :
    wp (copyData build imgKey kRam imgOffset textWords dataWords)
      (fun _ σ' => σ.Holds σ' m fun j => if j < dataWords.toNat then data j else w j)
      (fun _ _ => True) σ₁ := by
  have hsmall := dataWords.isLt
  rw [copyData, List.range_eq_range']
  apply wp_mono (wp_pokeEach build (f := data) hram hend (by omega) _ h) _ fun _ _ h => h
  · intro i hi w' σ' Q _ h' hpoke
    rw [wp_bind, (h'.writes.same.hasBlock himg).wp_peek]
    split
    next hin =>
      obtain ⟨haddr, hroom⟩ := toNat_wordAddr himgEnd hin
      have hbytes : ∀ a, img.Covers a → σ'.kernel.ram a = σ.kernel.ram a := fun a ha =>
        h'.writes.ram a (hapart.not_covers ha)
      rw [loadWord_of_covered hbytes (by omega) (by omega) himgEnd, hdata i (by omega) hin]
      exact hpoke _ (h'.consulted imgKey)
    next => trivial
  · intro _ σ' h'
    apply h'.congr
    intro j _
    simp only [Nat.zero_le, true_and, Nat.zero_add]

theorem wp_zeroRest {dataWords : Word} (hram : σ.HasBlock kRam m.base m.size)
    (hend : m.base.toNat + m.size.toNat ≤ 2 ^ 32) (h : σ.Holds σ₁ m w) :
    wp (zeroRest build kRam dataWords (m.size / 4#32))
      (fun _ σ' => σ.Holds σ' m fun j => if j < dataWords.toNat then w j else 0#32)
      (fun _ _ => True) σ₁ := by
  have hsize := m.size.isLt
  have hdata := dataWords.isLt
  have hwords : (m.size / 4#32).toNat = m.size.toNat / 4 := BitVec.toNat_udiv
  rw [zeroRest]
  apply wp_mono (wp_pokeEach build (f := fun _ => 0#32) hram hend (by omega) _ h) _
    fun _ _ h => h
  · intro i _ w' σ' Q _ h' hpoke
    exact hpoke σ' h'
  · intro _ σ' h'
    apply h'.congr
    intro j hj
    by_cases hlow : j < dataWords.toNat
    · rw [if_pos hlow, if_neg (by omega)]
    · rw [if_neg hlow, if_pos (by omega)]

theorem wp_relocateGot {hdr : Header} {imgAddr ramBase gotWords : Word}
    (hram : σ.HasBlock kRam m.base m.size) (hend : m.base.toNat + m.size.toNat ≤ 2 ^ 32)
    (h : σ.Holds σ₁ m w) :
    wp (relocateGot build hdr imgAddr ramBase kRam gotWords)
      (fun _ σ' => σ.Holds σ' m fun j =>
        if j < gotWords.toNat then relocateGotEntry hdr imgAddr ramBase (w j) else w j)
      (fun _ _ => True) σ₁ := by
  have hsmall := gotWords.isLt
  rw [relocateGot, List.range_eq_range']
  apply wp_mono (wp_pokeEach build (f := fun j => relocateGotEntry hdr imgAddr ramBase (w j)) hram hend
    (by omega) _ h) _ fun _ _ h => h
  · intro i hi w' σ' Q hw h' hpoke
    have hword : (BitVec.ofNat 32 i).toNat = i := by
      rw [BitVec.toNat_ofNat, Nat.mod_eq_of_lt (by omega)]
    rw [wp_bind, (h'.writes.same.hasBlock hram).wp_peek]
    split
    next hin =>
      rw [BitVec.lt_def, hword, BitVec.toNat_udiv] at hin
      rw [h'.words i hin, hw]
      exact hpoke _ (h'.consulted kRam)
    next => trivial
  · intro _ σ' h'
    apply h'.congr
    intro j _
    simp only [Nat.zero_le, true_and, Nat.zero_add]

end

/-! ## The RAM -/

/-- Words of RAM. -/
def Header.ramWords (hdr : Header) : Nat := hdr.getRamSize.toNat / 4

/-- Words of initialized data, the GOT prototype included. -/
def Header.dataWords (hdr : Header) : Nat := (hdr.imageSize.toNat - hdr.textEnd.toNat) / 4

/-- Words of the GOT prototype. -/
def Header.gotWords (hdr : Header) : Nat := (hdr.gotEnd.toNat - hdr.textEnd.toNat) / 4

/-- An address that the image is linked for, where the program is loaded: text stays in the image,
data and BSS go to the RAM, and anything beyond is absolute. -/
def Header.relocated (hdr : Header) (imgAddr ramBase addr : Word) : Word :=
  if addr.toNat < hdr.textEnd.toNat then addr + imgAddr
  else if addr.toNat < hdr.bssEnd.toNat then addr - hdr.textEnd + ramBase
  else addr

theorem relocateGotEntry_eq (hdr : Header) (imgAddr ramBase addr : Word) :
    relocateGotEntry hdr imgAddr ramBase addr = hdr.relocated imgAddr ramBase addr := by
  simp only [relocateGotEntry, Header.relocated, BitVec.lt_def, BitVec.add_comm imgAddr]

/-- Word `i` of a program's RAM, for these data words of the image. -/
def Header.ramWord (hdr : Header) (imgAddr ramBase : Word) (data : Nat → Word) (i : Nat) : Word :=
  if i = hdr.ramWords - 1 then 1#32 <<< 24
  else if i = hdr.ramWords - 2 then imgAddr + hdr.entry
  else if i < hdr.gotWords then hdr.relocated imgAddr ramBase (data i)
  else if i < hdr.dataWords then data i
  else 0#32

theorem Header.Valid.toNat_dataWords {hdr : Header} (h : hdr.Valid) :
    (hdr.imageSize / 4#32 - hdr.textEnd / 4#32).toNat = hdr.dataWords := by
  have htext := h.textEnd
  have himage := h.imageSize
  have hle := h.text_le_got.trans h.got_le_image
  have hfour : (4#32 : Word).toNat = 4 := rfl
  rw [BitVec.toNat_sub_of_le, BitVec.toNat_udiv, BitVec.toNat_udiv, hfour, dataWords]
  · omega
  · rw [BitVec.le_def, BitVec.toNat_udiv, BitVec.toNat_udiv, hfour]
    omega

theorem Header.Valid.toNat_gotWords {hdr : Header} (h : hdr.Valid) :
    (hdr.gotEnd / 4#32 - hdr.textEnd / 4#32).toNat = hdr.gotWords := by
  have htext := h.textEnd
  have hgot := h.gotEnd
  have hle := h.text_le_got
  have hfour : (4#32 : Word).toNat = 4 := rfl
  rw [BitVec.toNat_sub_of_le, BitVec.toNat_udiv, BitVec.toNat_udiv, hfour, gotWords]
  · omega
  · rw [BitVec.le_def, BitVec.toNat_udiv, BitVec.toNat_udiv, hfour]
    omega

theorem Header.Valid.got_le_data {hdr : Header} (h : hdr.Valid) : hdr.gotWords ≤ hdr.dataWords := by
  have hle := h.got_le_image
  rw [gotWords, dataWords]
  omega

section

variable {build : Build} {σ : State} {hdr : Header} {m img : Memory} {imgKey kRam : Key}

/-- The RAM after it has been filled, if no assertion fails. -/
theorem wp_fillRam {imgAddr imgOffset : Word} {data : Nat → Word} (hvalid : hdr.Valid)
    (himg : σ.HasBlock imgKey img.base img.size) (hapart : img.Apart m)
    (himgEnd : img.base.toNat + img.size.toNat ≤ 2 ^ 32)
    (hsource : ∀ i, imgOffset + hdr.textEnd / 4#32 + BitVec.ofNat 32 i < img.size / 4#32 →
      σ.kernel.loadWord (img.base + 4#32 * (imgOffset + hdr.textEnd / 4#32 + BitVec.ofNat 32 i)) =
        data i)
    (hram : σ.HasBlock kRam m.base m.size)
    (hend : m.base.toNat + m.size.toNat ≤ 2 ^ 32) (hsize : m.size = hdr.getRamSize)
    (hlarge : 32 ≤ m.size.toNat) (hbase : 2 ^ 5 ∣ m.base.toNat) :
    wp (fillRam build hdr imgAddr imgOffset imgKey kRam)
      (fun ramBase σ' => ramBase = m.base ∧ σ.Holds σ' m (hdr.ramWord imgAddr m.base data))
      (fun _ _ => True) σ := by
  have hdata := hvalid.toNat_dataWords
  have hgot := hvalid.toNat_gotWords
  have hle := hvalid.got_le_data
  have hstart : σ.Holds σ m fun j => σ.kernel.loadWord (m.base + 4#32 * BitVec.ofNat 32 j) :=
    ⟨.refl σ m, fun _ _ => rfl⟩
  have hwords : (hdr.getRamSize / 4#32).toNat = hdr.ramWords := BitVec.toNat_udiv
  have hramWords : hdr.ramWords = m.size.toNat / 4 := by
    rw [Header.ramWords, hsize]
  have htop : ∀ n : Word, n.toNat ≤ 2 → (hdr.getRamSize / 4#32 - n).toNat = hdr.ramWords - n.toNat := by
    intro n hn
    rw [BitVec.toNat_sub_of_le (by rw [BitVec.le_def]; omega), hwords]
  simp only [fillRam, wp_bind, ← hsize]
  -- The three loops, one after the other.
  apply wp_mono (wp_copyData himg hapart himgEnd (fun i _ => hsource i) hram hend hstart) _ fun _ _ h => h
  intro _ σ₁ h₁
  apply wp_mono (wp_zeroRest hram hend h₁) _ fun _ _ h => h
  intro _ σ₂ h₂
  have hram₂ := h₂.writes.same.hasBlock hram
  have hreported : ∀ rasr, MemRegion.getBase ⟨(σ₂.kernel.memory (σ₂.kernel.target kRam)).base, rasr⟩ =
      m.base := by
    intro rasr
    rw [hram₂.base]
    exact getBase_of_dvd hbase rasr
  rw [wp_memoryInspect hram₂.live hram₂.kind, hreported]
  apply wp_mono (wp_relocateGot hram hend (h₂.consulted kRam)) _ fun _ _ h => h
  intro _ σ₃ h₃
  -- The exception frame at the other end.
  apply h₃.wp_poke hram hend
  intro σ₄ h₄
  apply h₄.wp_poke hram hend
  intro σ₅ h₅
  rw [hsize, htop 1#32 (by decide), htop 2#32 (by decide)] at h₅
  refine ⟨rfl, h₅.congr ?_⟩
  intro i hi
  rw [Header.ramWord, hdata, hgot]
  show Function.update (Function.update _ (hdr.ramWords - 1) _) (hdr.ramWords - 2) _ i = _
  by_cases hlast : i = hdr.ramWords - 1
  · rw [Function.update_of_ne (by omega), if_pos hlast, hlast, Function.update_self]
  rw [if_neg hlast]
  by_cases hframe : i = hdr.ramWords - 2
  · rw [if_pos hframe, hframe, Function.update_self, BitVec.add_comm]
  rw [if_neg hframe, Function.update_of_ne hframe, Function.update_of_ne hlast]
  by_cases hentry : i < hdr.gotWords
  · rw [if_pos hentry, if_pos hentry, if_pos (by omega), if_pos (by omega), relocateGotEntry_eq]
  rw [if_neg hentry, if_neg hentry]
  by_cases hword : i < hdr.dataWords
  · rw [if_pos hword, if_pos hword, if_pos hword]
  · rw [if_neg hword, if_neg hword]

end

/-! ## The Context -/

/-- A Context after its region registers and saved registers have been written. -/
structure State.Prepares (σ σ' : State) (c : TableIndex) (imgKey kRam : Key) (r9 sp : Word) : Prop where
  same : σ.SameTables σ'
  ram : σ'.kernel.ram = σ.kernel.ram
  image : σ'.kernel.resolve ((σ'.kernel.context c).regions 0) = σ'.kernel.resolve imgKey
  memory : σ'.kernel.resolve ((σ'.kernel.context c).regions 1) = σ'.kernel.resolve kRam
  r9 : (σ'.kernel.context c).save 5 = r9
  sp : (σ'.kernel.context c).save 9 = sp

theorem State.SameTables.resolve {σ σ' : State} (h : σ.SameTables σ') (k : Key) :
    σ'.kernel.resolve k = σ.kernel.resolve k := by
  simp only [KState.resolve, h.isLive, KState.nullKey, KState.filled, h.generation]

theorem wp_fillContext {build : Build} {σ : State} {hdr : Header} {ramBase : Word}
    {imgKey kRam kCtx : Key} (hlive : σ.kernel.isLive kCtx = true)
    (hkind : σ.kernel.kind (σ.kernel.target kCtx) = .context) (hbrand : kCtx.brand.isTop = false) :
    wp (fillContext build hdr ramBase imgKey kRam kCtx)
      (fun _ σ' => σ.Prepares σ' (σ.kernel.target kCtx) imgKey kRam ramBase
        (ramBase + hdr.getRamSize - exceptionFrameSize)) (fun _ _ => True) σ := by
  have hkept : ∀ {σ'}, σ.SameTables σ' → σ'.kernel.isLive kCtx = true ∧
      σ'.kernel.target kCtx = σ.kernel.target kCtx ∧
      σ'.kernel.kind (σ'.kernel.target kCtx) = .context := by
    intro σ' hsame
    have htarget := hsame.target kCtx
    exact ⟨by rw [hsame.isLive, hlive], htarget, by rw [htarget, hsame.kind, hkind]⟩
  generalize σ.kernel.target kCtx = c at hkept ⊢
  simp only [fillContext, wp_bind]
  -- Region 0
  obtain ⟨hlive₀, htarget₀, hkind₀⟩ := hkept ⟨rfl, rfl, rfl, rfl, rfl⟩
  rw [wp_setRegion hlive₀ hkind₀ hbrand, dif_pos (by decide), htarget₀]
  have h₁ := σ.sameTables_withRegion c ⟨(0#32 : Word).toNat, by decide⟩ imgKey
  have hregion₁ := regions_withRegion σ.kernel c ⟨(0#32 : Word).toNat, by decide⟩ imgKey
  have hram₁ := ram_withRegion σ.kernel c ⟨(0#32 : Word).toNat, by decide⟩ imgKey
  generalize withRegion σ.kernel c ⟨(0#32 : Word).toNat, by decide⟩ imgKey = s₁ at h₁ hregion₁ hram₁ ⊢
  -- Region 1
  obtain ⟨hlive₁, htarget₁, hkind₁⟩ := hkept h₁
  rw [wp_setRegion hlive₁ hkind₁ hbrand, dif_pos (by decide), htarget₁]
  have h₂ := (σ.over s₁).sameTables_withRegion c ⟨(1#32 : Word).toNat, by decide⟩ kRam
  have hregion₂ := regions_withRegion s₁ c ⟨(1#32 : Word).toNat, by decide⟩ kRam
  have hother₂ := regions_withRegion_of_ne s₁ c (i := ⟨(1#32 : Word).toNat, by decide⟩)
    (j := ⟨(0#32 : Word).toNat, by decide⟩) (by decide) kRam
  have hram₂ := ram_withRegion s₁ c ⟨(1#32 : Word).toNat, by decide⟩ kRam
  rw [State.kernel_over]
  rw [State.kernel_over] at h₂
  generalize withRegion s₁ c ⟨(1#32 : Word).toNat, by decide⟩ kRam = s₂ at h₂ hregion₂ hother₂ hram₂ ⊢
  have hsame₂ := h₁.trans h₂
  -- Registers
  obtain ⟨hlive₂, htarget₂, hkind₂⟩ := hkept hsame₂
  rw [wp_setRegister hlive₂ hkind₂ hbrand, dif_pos (by decide), htarget₂]
  have h₃ := hsame₂.trans (State.sameTables_withRegister _ c ⟨(5#32 : Word).toNat, by decide⟩ ramBase)
  obtain ⟨hlive₃, htarget₃, hkind₃⟩ := hkept h₃
  rw [wp_setRegister hlive₃ hkind₃ hbrand, dif_pos (by decide), htarget₃]
  have h₄ := h₃.trans (State.sameTables_withRegister _ c ⟨(9#32 : Word).toNat, by decide⟩
    (ramBase + hdr.getRamSize - exceptionFrameSize))
  have hresolve₁ := fun k => h₁.resolve k
  simp only [State.kernel_over] at hresolve₁
  constructor
  · exact h₄
  · exact hram₂.trans hram₁
  · rw [h₄.resolve, h₄.resolve]
    simp only [State.kernel_over, withRegister, KState.updateContext, Function.update_self]
    exact (hresolve₁ _).symm.trans (hother₂.trans ((hresolve₁ _).trans hregion₁))
  · rw [h₄.resolve, h₄.resolve]
    simp only [State.kernel_over, withRegister, KState.updateContext, Function.update_self]
    exact (hresolve₁ _).symm.trans (hregion₂.trans (hresolve₁ kRam))
  · simp [withRegister, KState.updateContext]
  · simp [withRegister, KState.updateContext]

/-! ## Loading -/

/-- A key to a Memory as the kernel constructs it, whose range is not free. -/
structure State.HasImage (σ : State) (lists : Nat → List Word) (imgKey : Key) : Prop where
  live : σ.kernel.isLive imgKey = true
  kind : σ.kernel.kind (σ.kernel.target imgKey) = .memory
  attributes : ∃ a, (σ.kernel.memory (σ.kernel.target imgKey)).attributes =
    Memory.initAttributes (σ.kernel.memory (σ.kernel.target imgKey)).base
      (σ.kernel.memory (σ.kernel.target imgKey)).size a
  below : (σ.kernel.memory (σ.kernel.target imgKey)).base.toNat +
    (σ.kernel.memory (σ.kernel.target imgKey)).size.toNat < 2 ^ 32
  apart : ∀ l, ∀ oti ∈ lists l,
    (σ.kernel.memory (σ.kernel.target imgKey)).Apart (σ.kernel.memory oti.toNat)

/-- The header at an address. -/
def State.header (σ : State) (imgAddr : Word) : Header where
  imageSize := σ.kernel.loadWord imgAddr
  textEnd := σ.kernel.loadWord (imgAddr + 4#32)
  gotEnd := σ.kernel.loadWord (imgAddr + 8#32)
  bssEnd := σ.kernel.loadWord (imgAddr + 12#32)
  stackSize := σ.kernel.loadWord (imgAddr + 16#32)
  entry := σ.kernel.loadWord (imgAddr + 20#32)

/-- Word `i` of the data segment of the image at an address. -/
def State.imageData (σ : State) (imgAddr : Word) (i : Nat) : Word :=
  σ.kernel.loadWord (imgAddr + (σ.header imgAddr).textEnd + 4#32 * BitVec.ofNat 32 i)

/-- An entry that is not free, with the bytes of its Memory. -/
structure State.SameBlock (σ σ' : State) (e : TableIndex) : Prop where
  entry : σ.SameEntry σ' e
  bytes : ∀ a, (σ.kernel.memory e).Covers a → σ'.kernel.ram a = σ.kernel.ram a

/-- The loader has made entry `ctx` a Context with entry `ram` as its memory. -/
structure Inflated (σ : State) (lists : Nat → List Word) (imgAddr : Word) (imgKey : Key) (σ' : State)
    (kCtx : Key) (ctx ram : Word) : Prop where
  key : kCtx = σ'.kernel.filled ctx.toNat 0#64
  context : σ'.kernel.kind ctx.toNat = .context
  block : σ'.kernel.kind ram.toNat = .memory
  size : (σ'.kernel.memory ram.toNat).size = (σ.header imgAddr).getRamSize
  /-- The RAM was free. -/
  wasFree : ∃ l, ∃ oti ∈ lists l, (σ'.kernel.memory ram.toNat).Within (σ.kernel.memory oti.toNat)
  words : ∀ i < (σ.header imgAddr).ramWords,
    σ'.kernel.loadWord ((σ'.kernel.memory ram.toNat).base + 4#32 * BitVec.ofNat 32 i) =
      (σ.header imgAddr).ramWord imgAddr (σ'.kernel.memory ram.toNat).base (σ.imageData imgAddr) i
  image : σ.SameBlock σ' (σ.kernel.target imgKey)
  /-- Every Memory that was not free is what it was. -/
  others : ∀ e, σ.kernel.kind e = .memory →
    (∀ l, ∀ oti ∈ lists l, (σ.kernel.memory e).Apart (σ.kernel.memory oti.toNat)) → σ.SameBlock σ' e
  region0 : σ'.kernel.resolve ((σ'.kernel.context ctx.toNat).regions 0) = imgKey
  region1 : σ'.kernel.resolve ((σ'.kernel.context ctx.toNat).regions 1) =
    σ'.kernel.filled ram.toNat 0x030000#64
  r9 : (σ'.kernel.context ctx.toNat).save 5 = (σ'.kernel.memory ram.toNat).base
  sp : (σ'.kernel.context ctx.toNat).save 9 = (σ'.kernel.memory ram.toNat).base +
    (σ'.kernel.memory ram.toNat).size - exceptionFrameSize

/-! ### The allocations -/

/-- Entries `ram` and `ctx` were cut out of the free blocks, for a program. -/
structure State.Allocated (σ : State) (lists : Nat → List Word) (σ' : State) (hdr : Header)
    (kRam kCtx : Key) (ram ctx : Word) : Prop where
  carves : ∃ lists', σ.Carves lists σ' lists'
  ramKey : kRam = σ'.kernel.filled ram.toNat 0x030000#64
  ctxKey : kCtx = σ'.kernel.filled ctx.toNat 0#64
  ramBlock : ∃ l, σ'.Block l ram
  ctxBlock : ∃ l, σ'.Block l ctx
  size : (σ'.kernel.memory ram.toNat).size = hdr.getRamSize
  apart : (σ'.kernel.memory ram.toNat).Apart (σ'.kernel.memory ctx.toNat)
  ramWasFree : ∃ l, ∃ oti ∈ lists l, (σ'.kernel.memory ram.toNat).Within (σ.kernel.memory oti.toNat)
  ctxWasFree : ∃ l, ∃ oti ∈ lists l, (σ'.kernel.memory ctx.toNat).Within (σ.kernel.memory oti.toNat)

section

variable {build : Build} {σ σ₁ σ' : State} {lists lists₁ : Nat → List Word} {hdr : Header}
  {kRam kCtx : Key} {ram ctx : Word}

/-- A piece of a piece of a free block. -/
theorem State.Carves.wasFree (h : σ.Carves lists σ₁ lists₁) {m : Memory}
    (hfree : ∃ l, ∃ oti ∈ lists₁ l, m.Within (σ₁.kernel.memory oti.toNat)) :
    ∃ l, ∃ oti ∈ lists l, m.Within (σ.kernel.memory oti.toNat) := by
  obtain ⟨l₁, oti₁, hmem₁, hwithin₁⟩ := hfree
  obtain ⟨l, oti, hmem, hwithin⟩ := h.within l₁ oti₁ hmem₁
  exact ⟨l, oti, hmem, hwithin₁.trans hwithin⟩

/-- The size of a block that the loader gets for a program's RAM. -/
theorem State.Block.size_eq {brand : Brand}
    (hok : allocMem build (ctz hdr.getRamSize - 1#32) brand σ = .ok (some kRam) σ₁)
    (h : σ'.Block (ctz hdr.getRamSize - 1#32).toNat ram) :
    (σ'.kernel.memory ram.toNat).size = hdr.getRamSize := by
  obtain ⟨n, hn, -, hsize, -⟩ := getRamSize_of_allocMem hok
  apply BitVec.eq_of_toNat_eq
  have hctz := ctz_of_two_pow hsize
  have hone : (1#32 : Word).toNat = 1 := rfl
  rw [h.size, hsize, BitVec.toNat_sub_of_le (by rw [BitVec.le_def, hctz, hone]; omega), hctz, hone,
    Nat.sub_add_cancel (by omega)]

theorem wp_allocateProgram (hcarves : σ.Carves lists σ₁ lists₁) (h : σ₁.FreeLists lists₁) :
    wp (allocateProgram build hdr)
      (fun r σ' => ∀ kRam kCtx, r = some (kRam, kCtx) →
        ∃ ram ctx, σ.Allocated lists σ' hdr kRam kCtx ram ctx)
      (fun _ _ => True) σ₁ := by
  rw [allocateProgram, wp_bind]
  apply wp_mono (wp_outcome (wp_allocMem h _ _)) _ fun _ _ _ => trivial
  rintro (_ | kRam) σ₂ ⟨hok, lists₂, h₂, hcarves₂, hgranted₂⟩
  · rw [wp_pure]
    intro _ _ hnone
    contradiction
  obtain ⟨ram, hram⟩ := hgranted₂ kRam rfl
  rw [wp_bind]
  apply wp_mono (wp_allocMem h₂ _ _) _ fun _ _ _ => trivial
  rintro (_ | kCtx) σ₃ ⟨lists₃, -, hcarves₃, hgranted₃⟩
  · -- The RAM goes back.
    rw [wp_bind]
    apply wp_of_forall
    · intro _ _ _ _ hnone
      contradiction
    · intro _ _
      trivial
  obtain ⟨ctx, hctx⟩ := hgranted₃ kCtx rfl
  obtain ⟨hloose, hsame⟩ := hcarves₃.loose hram.loose
  rw [wp_pure]
  rintro _ _ ⟨⟩
  refine ⟨ram, ctx, ⟨lists₃, (hcarves.trans hcarves₂).trans hcarves₃⟩, ?_, hctx.key, ⟨_, hloose.block⟩,
    ⟨_, hctx.loose.block⟩, hloose.block.size_eq hok, ?_, ?_, ?_⟩
  · rw [hram.key, KState.filled, KState.filled, hsame.generation]
  · obtain ⟨l, oti, hmem, hwithin⟩ := hctx.wasFree
    rw [hsame.memory]
    exact (hram.loose.apart l oti hmem).2.of_within hwithin
  · rw [hsame.memory]
    exact hcarves.wasFree hram.wasFree
  · exact (hcarves.trans hcarves₂).wasFree hctx.wasFree

/-- A Memory that was not free has nothing to do with the program's blocks. -/
theorem State.Allocated.bystander (h : σ.Allocated lists σ' hdr kRam kCtx ram ctx) {e : TableIndex}
    (hfree : ∀ l, ∀ oti ∈ lists l, σ.Block l oti) (hkind : σ.kernel.kind e = .memory)
    (hapart : ∀ l, ∀ oti ∈ lists l, (σ.kernel.memory e).Apart (σ.kernel.memory oti.toNat)) :
    σ.SameBlock σ' e ∧ (σ.kernel.memory e).Apart (σ'.kernel.memory ram.toNat) ∧ e ≠ ctx.toNat := by
  obtain ⟨lists', hcarves⟩ := h.carves
  have hsame : σ.SameEntry σ' e := by
    apply hcarves.elsewhere
    · rintro l oti hmem rfl
      exact (hfree l oti hmem).not_apart (hapart l oti hmem)
    · simp [hkind]
  refine ⟨⟨hsame, fun a ha => ?_⟩, ?_, ?_⟩
  · apply hcarves.bytes
    intro l oti hmem
    exact (hapart l oti hmem).not_covers ha
  · obtain ⟨l, oti, hmem, hwithin⟩ := h.ramWasFree
    exact (hapart l oti hmem).of_within hwithin
  · rintro rfl
    obtain ⟨l', hblock⟩ := h.ctxBlock
    obtain ⟨l, oti, hmem, hwithin⟩ := h.ctxWasFree
    apply hblock.not_apart
    nth_rewrite 1 [hsame.memory]
    exact (hapart l oti hmem).of_within hwithin

/-! ### Filling the blocks -/

theorem resolve_of_live {s : KState} {k : Key} (h : s.isLive k = true) : s.resolve k = k := by
  rw [KState.resolve, if_pos h]

/-- The address of a data word, as the loader computes it. -/
theorem dataAddr_eq {base imgAddr textEnd : Word} (haddr : 4 ∣ (imgAddr - base).toNat)
    (htext : 4 ∣ textEnd.toNat) (i : Word) :
    base + 4#32 * ((imgAddr - base) / 4#32 + textEnd / 4#32 + i) = imgAddr + textEnd + 4#32 * i := by
  have hmul : ∀ w : Word, 4 ∣ w.toNat → 4#32 * (w / 4#32) = w := by
    intro w hw
    apply BitVec.eq_of_toNat_eq
    rw [BitVec.toNat_mul, BitVec.toNat_udiv, show (4#32 : Word).toNat = 4 from rfl,
      Nat.mul_div_cancel' hw, Nat.mod_eq_of_lt w.isLt]
  rw [BitVec.mul_add, BitVec.mul_add, hmul _ haddr, hmul _ htext]
  generalize 4#32 * i = j
  bv_omega

variable {imgAddr : Word} {imgKey : Key}

/-- Everything after the allocations, for a valid header. -/
theorem wp_inflate (hvalid : (σ.header imgAddr).Valid) (hfree : ∀ l, ∀ oti ∈ lists l, σ.Block l oti)
    (himg : σ.HasImage lists imgKey)
    (haligned : 4 ∣ (imgAddr - (σ.kernel.memory (σ.kernel.target imgKey)).base).toNat)
    (h : σ.Allocated lists σ₁ (σ.header imgAddr) kRam kCtx ram ctx) :
    wp (inflate build (σ.header imgAddr) imgAddr
        ((imgAddr - (σ.kernel.memory (σ.kernel.target imgKey)).base) / 4#32) imgKey kRam kCtx)
      (fun kCtx' σ' => Inflated σ lists imgAddr imgKey σ' kCtx' ctx ram) (fun _ _ => True) σ₁ := by
  obtain ⟨l, hram⟩ := h.ramBlock
  obtain ⟨l', hctx⟩ := h.ctxBlock
  have hne : ram.toNat ≠ ctx.toNat := by
    intro heq
    have hapart := h.apart
    rw [← heq] at hapart
    exact hram.not_apart hapart
  have hctxKey := hctx.hasBlock 0#64
  rw [← h.ctxKey] at hctxKey
  have htarget : σ₁.kernel.target kCtx = ctx.toNat := by
    rw [h.ctxKey, target_filled]
  rw [inflate, wp_bind]
  apply wp_memoryBecome hctxKey.live hctxKey.kind
  intro σ₂ hdonated
  rw [htarget] at hdonated ⊢
  -- What the blocks that were not free look like so far.
  have hothers : ∀ e, σ.kernel.kind e = .memory →
      (∀ l, ∀ oti ∈ lists l, (σ.kernel.memory e).Apart (σ.kernel.memory oti.toNat)) →
      σ.SameBlock σ₂ e ∧ (σ.kernel.memory e).Apart (σ₁.kernel.memory ram.toNat) := by
    intro e hkind hapart
    obtain ⟨hsame, haway, hother⟩ := h.bystander hfree hkind hapart
    refine ⟨⟨hsame.entry.trans (hdonated.sameEntry hother), fun a ha => ?_⟩, haway⟩
    rw [hdonated.ram, hsame.bytes a ha]
  obtain ⟨himgSame, himgApart⟩ := hothers _ himg.kind himg.apart
  obtain ⟨himgLive, himgTarget⟩ := himgSame.entry.live himg.live
  have himgBlock : σ₂.HasBlock imgKey (σ.kernel.memory (σ.kernel.target imgKey)).base
      (σ.kernel.memory (σ.kernel.target imgKey)).size := by
    refine ⟨himgLive, ?_, ?_, ?_⟩
    all_goals rw [himgTarget]
    · rw [himgSame.entry.kind, himg.kind]
    · rw [himgSame.entry.memory]
    · rw [himgSame.entry.memory]
  -- The RAM, its key and its words.
  have hramSame := hdonated.sameEntry hne
  have hramKey : kRam = σ₂.kernel.filled ram.toNat 0x030000#64 := by
    rw [h.ramKey, KState.filled, KState.filled, hramSame.generation]
  have hramBlock : σ₂.HasBlock kRam (σ₁.kernel.memory ram.toNat).base
      (σ₁.kernel.memory ram.toNat).size := by
    rw [hramKey, ← hramSame.memory]
    exact (hram.of_sameEntry hdonated.count hramSame).hasBlock _
  have hramDvd : 2 ^ 5 ∣ (σ₁.kernel.memory ram.toNat).base.toNat := by
    obtain ⟨j, hj, -, hdvd⟩ := hram.natural.exponent
    exact (Nat.pow_dvd_pow 2 (by omega)).trans hdvd
  have hsource : ∀ i, (imgAddr - (σ.kernel.memory (σ.kernel.target imgKey)).base) / 4#32 +
        (σ.header imgAddr).textEnd / 4#32 + BitVec.ofNat 32 i <
          (σ.kernel.memory (σ.kernel.target imgKey)).size / 4#32 →
      σ₂.kernel.loadWord ((σ.kernel.memory (σ.kernel.target imgKey)).base + 4#32 *
        ((imgAddr - (σ.kernel.memory (σ.kernel.target imgKey)).base) / 4#32 +
          (σ.header imgAddr).textEnd / 4#32 + BitVec.ofNat 32 i)) = σ.imageData imgAddr i := by
    intro i hin
    obtain ⟨haddr, hroom⟩ := toNat_wordAddr himg.below.le hin
    rw [loadWord_of_covered himgSame.bytes (by omega) (by omega) himg.below.le,
      dataAddr_eq haligned hvalid.textEnd]
    rfl
  rw [wp_bind]
  apply wp_mono (wp_fillRam hvalid himgBlock himgApart himg.below.le hsource hramBlock hram.noWrap.le
    h.size hram.natural.large hramDvd) _ fun _ _ _ => trivial
  rintro _ σ₃ ⟨rfl, hfilled⟩
  -- The Context.
  have hsame₃ := hfilled.writes.same
  have hctxLive : σ₃.kernel.isLive (σ₂.kernel.filled ctx.toNat 0#64) = true := by
    rw [hsame₃.isLive, isLive_filled]
  have hctxTarget : σ₃.kernel.target (σ₂.kernel.filled ctx.toNat 0#64) = ctx.toNat := by
    rw [hsame₃.target, target_filled]
  have hctxKind : σ₃.kernel.kind ctx.toNat = .context := by
    rw [hsame₃.kind, hdonated.kind, Function.update_self]
  have hbrand : (σ₂.kernel.filled ctx.toNat 0#64).brand.isTop = false :=
    show Brand.isTop 0#64 = false by decide
  rw [wp_bind]
  apply wp_mono (wp_fillContext hctxLive (by rw [hctxTarget, hctxKind]) hbrand) _
    fun _ _ _ => trivial
  intro _ σ₄ hprepared
  rw [hctxTarget] at hprepared
  rw [wp_pure]
  have hsame := hsame₃.trans hprepared.same
  have hmemory : σ₄.kernel.memory ram.toNat = σ₁.kernel.memory ram.toNat := by
    rw [hsame.memory, hdonated.memory]
  have hblocks : ∀ e, σ.kernel.kind e = .memory →
      (∀ l, ∀ oti ∈ lists l, (σ.kernel.memory e).Apart (σ.kernel.memory oti.toNat)) →
      σ.SameBlock σ₄ e := by
    intro e hkind hapart
    obtain ⟨hsame₂, haway⟩ := hothers e hkind hapart
    refine ⟨hsame₂.entry.trans (hsame.sameEntry e), fun a ha => ?_⟩
    rw [hprepared.ram, hfilled.writes.ram a (haway.not_covers ha), hsame₂.bytes a ha]
  constructor
  · rw [KState.filled, KState.filled, hsame.generation]
  · rw [hprepared.same.kind, hctxKind]
  · rw [hsame.kind, hramSame.kind, hram.kind]
  · rw [hmemory, h.size]
  · rw [hmemory]
    exact h.ramWasFree
  · intro i hi
    rw [hmemory, KState.loadWord, hprepared.ram]
    exact hfilled.words i (by rwa [h.size])
  · exact hblocks _ himg.kind himg.apart
  · exact hblocks
  · rw [hprepared.image, hprepared.same.resolve, hsame₃.resolve, resolve_of_live himgLive]
  · rw [hprepared.memory, hramKey, KState.filled, KState.filled, hsame.generation]
    apply resolve_of_live
    rw [hsame.isLive]
    exact isLive_filled _ _ _
  · rw [hprepared.r9, hmemory]
  · rw [hprepared.sp, hmemory, h.size]

/-! ### The header -/

/-- A state that differs only in what has been looked at. -/
structure State.Reads (σ σ' : State) : Prop where
  same : σ.SameTables σ'
  memRoots : σ'.memRoots = σ.memRoots
  ram : σ'.kernel.ram = σ.kernel.ram

theorem State.Reads.freeLists (hreads : σ.Reads σ') (h : σ.FreeLists lists) : σ'.FreeLists lists :=
  h.of_sameTables hreads.same hreads.memRoots fun l oti _ => by
    rw [State.nextFree, State.nextFree, hreads.same.memory, KState.loadWord, KState.loadWord, hreads.ram]

theorem State.Reads.carves (hreads : σ.Reads σ') (lists : Nat → List Word) :
    σ.Carves lists σ' lists where
  ot := hreads.same.ot
  count := hreads.same.count
  within l oti hmem := ⟨l, oti, hmem, by rw [hreads.same.memory]; exact .refl _⟩
  entries l _ hmem := .inl ⟨l, hmem⟩
  elsewhere e _ _ := hreads.same.sameEntry e
  bytes a _ := by rw [hreads.ram]

/-- The region test of a Memory that is no MPU region. -/
theorem contains_disabled {base addr : Word} (h : MemRegion.contains ⟨base, 0#32⟩ addr = true) :
    addr - MemRegion.getBase ⟨base, 0#32⟩ = 0#32 ∨
      addr - MemRegion.getBase ⟨base, 0#32⟩ = 0#32 - 1#32 := by
  have hhalf : (MemRegion.getL2HalfSize ⟨base, 0#32⟩).toNat = 0 := by
    show ((0#32 : Word) >>> 1 &&& 0x1F#32).toNat = 0
    decide
  rw [MemRegion.contains, hhalf] at h
  generalize addr - MemRegion.getBase ⟨base, 0#32⟩ = x at h ⊢
  have hlt : (x + 1#32) / 2#32 < 1#32 <<< 0 := of_decide_eq_true h
  rw [BitVec.lt_def, BitVec.toNat_udiv] at hlt
  have hsmall : (x + 1#32).toNat / 2 < 1 := hlt
  bv_omega

/-- No valid header is read from such a Memory: it would have to declare an image of size zero. -/
theorem wp_readHeader_unmappable (hlive : σ.kernel.isLive imgKey = true)
    (hkind : σ.kernel.kind (σ.kernel.target imgKey) = .memory)
    (hmappable : (σ.kernel.memory (σ.kernel.target imgKey)).isMappable = false) :
    wp (readHeader build imgAddr imgKey)
      (fun r _ => ∀ hdr imgOffset, r = some (hdr, imgOffset) → hdr.isValid = false)
      (fun _ _ => True) σ := by
  have hnone : ∀ hdr imgOffset, (none : Option (Header × Word)) = some (hdr, imgOffset) →
      hdr.isValid = false := fun _ _ h => by contradiction
  have hregion : ((σ.kernel.memory (σ.kernel.target imgKey)).getRegionForBrand imgKey.brand).rasr =
      0#32 := by
    rw [Memory.getRegionForBrand_of_not_mappable hmappable]
    rfl
  have hbase : 4 ∣ (MemRegion.getBase ⟨(σ.kernel.memory (σ.kernel.target imgKey)).base, 0#32⟩).toNat := by
    rw [← and_three_eq_zero_iff, MemRegion.getBase, BitVec.and_assoc,
      show ~~~0x1F#32 &&& 3#32 = (0#32 : Word) by decide, BitVec.and_zero]
  simp only [readHeader, wp_bind, wp_ite, wp_pure, wp_memoryInspect hlive hkind, hregion]
  generalize (σ.kernel.memory (σ.kernel.target imgKey)).base = base at hbase
  refine ⟨fun _ => hnone, fun haligned => ⟨fun _ => hnone, fun hin => ?_⟩⟩
  -- The image starts with the Memory.
  have hstart : imgAddr = MemRegion.getBase ⟨base, 0#32⟩ := by
    have haligned' : 4 ∣ imgAddr.toNat := and_three_eq_zero_iff.mp (not_not.mp haligned)
    have htest := contains_disabled (by simpa using hin)
    generalize MemRegion.getBase ⟨base, 0#32⟩ = b at htest hbase ⊢
    bv_omega
  apply wp_of_forall
  swap
  · intro _ _
    trivial
  intro imgSize _
  refine ⟨fun _ => hnone, fun hinside => ?_⟩
  have hsize := contains_disabled (by simpa using hinside)
  rw [← hstart] at hsize
  -- Whatever else the header says, its image has size zero.
  have hinvalid : ∀ textEnd gotEnd bssEnd stackSize entry,
      Header.isValid ⟨imgSize, textEnd, gotEnd, bssEnd, stackSize, entry⟩ = false := by
    intro textEnd gotEnd bssEnd stackSize entry
    by_contra hvalid
    have hvalid' := Header.valid_of_isValid (by simpa using hvalid)
    have himage := hvalid'.imageSize
    have hentry := hvalid'.entry
    have hle := hvalid'.text_le_got.trans hvalid'.got_le_image
    simp only at himage hentry hle
    bv_omega
  apply wp_of_forall _ _ fun _ _ => trivial
  intro textEnd _
  apply wp_of_forall _ _ fun _ _ => trivial
  intro gotEnd _
  apply wp_of_forall _ _ fun _ _ => trivial
  intro bssEnd _
  apply wp_of_forall _ _ fun _ _ => trivial
  intro stackSize _
  apply wp_of_forall _ _ fun _ _ => trivial
  rintro entry _ _ _ ⟨⟩
  exact hinvalid textEnd gotEnd bssEnd stackSize entry

/-- From a mappable Memory, the header is the one at the address. -/
theorem wp_readHeader_mappable (himg : σ.HasImage lists imgKey)
    (hnatural : Memory.NaturallyMappable (σ.kernel.memory (σ.kernel.target imgKey)).base
      (σ.kernel.memory (σ.kernel.target imgKey)).size) :
    wp (readHeader build imgAddr imgKey)
      (fun r σ' => σ.Reads σ' ∧ ∀ hdr imgOffset, r = some (hdr, imgOffset) →
        hdr = σ.header imgAddr ∧
        imgOffset = (imgAddr - (σ.kernel.memory (σ.kernel.target imgKey)).base) / 4#32 ∧
        4 ∣ (imgAddr - (σ.kernel.memory (σ.kernel.target imgKey)).base).toNat)
      (fun _ _ => True) σ := by
  let img : Image :=
    { base := (σ.kernel.memory (σ.kernel.target imgKey)).base
      size := (σ.kernel.memory (σ.kernel.target imgKey)).size
      content := σ.kernel.ram
      natural := hnatural
      below := himg.below }
  have hblock : σ.HasBlock imgKey img.base img.size := ⟨himg.live, himg.kind, rfl, rfl⟩
  have hin : ∀ σ', σ.Reads σ' → img.In σ' imgKey := by
    intro σ' hreads
    constructor
    · exact hreads.same.hasBlock hblock
    · rw [hreads.same.target, hreads.same.memory]
      exact himg.attributes
    · intro a _ _
      rw [hreads.ram]
  apply Image.wp_readHeader (I := fun σ' => σ.Reads σ') hin
  · intro σ' hreads
    exact ⟨hreads.same.trans (σ'.sameTables_consulted imgKey), hreads.memRoots, hreads.ram⟩
  · exact ⟨⟨rfl, rfl, rfl, rfl, rfl⟩, rfl, rfl⟩
  · intro _ σ' hreads
    refine ⟨hreads, ?_⟩
    intro _ _ hnone
    contradiction
  · intro hstart _ _ σ' hreads
    refine ⟨hreads, ?_⟩
    rintro _ _ ⟨⟩
    exact ⟨rfl, rfl, hstart.offset_dvd⟩
  · intro _ _ _ _ _ _
    trivial

/-- The loader, from the header on. -/
theorem wp_loadProgram (h : σ.FreeLists lists) (himg : σ.HasImage lists imgKey) :
    wp (loadProgram build imgAddr imgKey)
      (fun r σ' => ∀ kCtx, r = some kCtx → ∃ ctx ram, Inflated σ lists imgAddr imgKey σ' kCtx ctx ram)
      (fun _ _ => True) σ := by
  have hnothing : ∀ (σ' : State) kCtx, (none : Option Key) = some kCtx →
      ∃ ctx ram, Inflated σ lists imgAddr imgKey σ' kCtx ctx ram := fun _ _ h => by contradiction
  obtain ⟨a, ha⟩ := himg.attributes
  have hmappable := Memory.isMappable_init ha
  rw [loadProgram, wp_bind]
  cases hrange : Memory.mappableRange (σ.kernel.memory (σ.kernel.target imgKey)).base
      (σ.kernel.memory (σ.kernel.target imgKey)).size with
  | false =>
    rw [hrange] at hmappable
    apply wp_mono (wp_readHeader_unmappable himg.live himg.kind hmappable) _ fun _ _ _ => trivial
    rintro (_ | ⟨hdr, imgOffset⟩) σ₁ hinvalid
    · exact hnothing σ₁
    · simp only [hinvalid hdr imgOffset rfl, Bool.not_false, if_true, wp_pure]
      exact hnothing σ₁
  | true =>
    have hnatural := Memory.mappableRange_iff.mp hrange
    apply wp_mono (wp_readHeader_mappable himg hnatural) _ fun _ _ _ => trivial
    rintro (_ | ⟨hdr, imgOffset⟩) σ₁ ⟨hreads, hheader⟩
    · exact hnothing σ₁
    obtain ⟨rfl, rfl, haligned⟩ := hheader hdr imgOffset rfl
    simp only [wp_ite, wp_pure, wp_bind]
    refine ⟨fun _ => hnothing σ₁, fun hvalid => ?_⟩
    have hvalid' := Header.valid_of_isValid (by simpa using hvalid)
    apply wp_mono (wp_allocateProgram (hreads.carves lists) (hreads.freeLists h)) _ fun _ _ _ => trivial
    rintro (_ | ⟨kRam, kCtx⟩) σ₂ hallocated
    · exact hnothing σ₂
    obtain ⟨ram, ctx, halloc⟩ := hallocated kRam kCtx rfl
    rw [wp_bind]
    apply wp_mono (wp_inflate hvalid' h.block himg haligned halloc) _ fun _ _ _ => trivial
    intro kCtx' σ₃ hinflated
    rw [wp_pure]
    rintro _ ⟨⟩
    exact ⟨ctx, ram, hinflated⟩

/-- When a program is loaded, its RAM is what the header asks for, its Context designates image and
RAM, and nothing that was not free has changed. -/
theorem load_inflates {kCtx : Key} (h : σ.FreeLists lists) (himg : σ.HasImage lists imgKey)
    (hok : loadProgram build imgAddr imgKey σ = .ok (some kCtx) σ') :
    ∃ ctx ram, Inflated σ lists imgAddr imgKey σ' kCtx ctx ram :=
  wp_ok (wp_loadProgram h himg) hok kCtx rfl

end

/-! ### Sample -/

namespace LoadSample

/-- A header, one word of text, one GOT entry that points to itself, and one other word. -/
def imageWords : List Word :=
  [36#32, 28#32, 32#32, 36#32, 32#32, 24#32, 0x4770#32, 28#32, 7#32]

def imageByte (a : Word) : Byte :=
  ((imageWords.getD (a.toNat % 64 / 4) 0#32) >>> (8 * (a.toNat % 4))).setWidth 8

def block (base size : Word) : Memory where
  base := base
  size := size
  attributes := Memory.initAttributes base size 0#32

/-- The image in entry 3, and a free block each for RAM and Context in entries 4 and 5. -/
def state : State where
  kernel :=
    { count := 8
      kind := fun e => if e = 0 then .null else if e = 1 then .objectTable else .memory
      memory := fun e =>
        if e = 3 then block 0x20000000#32 64#32
        else if e = 4 then block 0x20000040#32 64#32
        else block 0x20000200#32 512#32
      ram := fun a => if a < 0x20000040#32 then imageByte a else 0#8 }
  ot := ⟨0#64, 0#32, some 1⟩
  memRoots := fun l => if l = 5 then 4#32 else if l = 8 then 5#32 else 0#32
  slotsUsed := 0#32

def imgKey : Key := ⟨0#64, 0#32, some 3⟩

def lists (l : Nat) : List Word := if l = 5 then [4#32] else if l = 8 then [5#32] else []

theorem mem_lists {l : Nat} {oti : Word} (h : oti ∈ lists l) :
    l = 5 ∧ oti = 4#32 ∨ l = 8 ∧ oti = 5#32 := by
  unfold lists at h
  split at h
  · simp_all
  · split at h
    · simp_all
    · simp at h

theorem freeLists : state.FreeLists lists := by
  have hram : state.Block 5 4#32 := by
    refine ⟨by decide, rfl, by decide, Memory.mappableRange_iff.mp (by decide), by decide, ⟨0#32, rfl⟩,
      rfl, rfl⟩
  have hctx : state.Block 8 5#32 := by
    refine ⟨by decide, rfl, by decide, Memory.mappableRange_iff.mp (by decide), by decide, ⟨0#32, rfl⟩,
      rfl, rfl⟩
  refine ⟨⟨rfl, rfl⟩, rfl, ?_, ?_, ?_⟩
  · intro l _
    by_cases hfive : l = 5
    · subst hfive
      have hend : state.nextFree 4#32 = 0#32 := by
        decide
      exact ⟨rfl, hend⟩
    by_cases hother : l = 8
    · subst hother
      have hend : state.nextFree 5#32 = 0#32 := by
        decide
      exact ⟨rfl, hend⟩
    simp [lists, state, hfive, hother]
  · intro l oti hmem
    obtain ⟨rfl, rfl⟩ | ⟨rfl, rfl⟩ := mem_lists hmem
    · exact hram
    · exact hctx
  · intro l l' oti oti' hmem hmem' hne
    obtain ⟨rfl, rfl⟩ | ⟨rfl, rfl⟩ := mem_lists hmem
    · obtain ⟨rfl, rfl⟩ | ⟨rfl, rfl⟩ := mem_lists hmem'
      · contradiction
      · left
        decide
    · obtain ⟨rfl, rfl⟩ | ⟨rfl, rfl⟩ := mem_lists hmem'
      · right
        decide
      · contradiction

theorem hasImage : state.HasImage lists imgKey := by
  refine ⟨rfl, rfl, ⟨0#32, rfl⟩, by decide, ?_⟩
  intro l oti hmem
  left
  obtain ⟨rfl, rfl⟩ | ⟨rfl, rfl⟩ := mem_lists hmem
  · decide
  · decide

/-- The loader succeeds. -/
theorem loads : (match loadProgram PoolSample.build 0x20000000#32 imgKey state with
    | .ok (some _) _ => true
    | _ => false) = true := by
  decide +kernel

end LoadSample

theorem load_inflates_sample : ∃ kCtx σ', loadProgram PoolSample.build 0x20000000#32
      LoadSample.imgKey LoadSample.state = .ok (some kCtx) σ' ∧
    ∃ ctx ram, Inflated LoadSample.state LoadSample.lists 0x20000000#32 LoadSample.imgKey σ' kCtx ctx
      ram := by
  have hloads := LoadSample.loads
  split at hloads
  next kCtx σ' hok => exact ⟨kCtx, σ', hok, load_inflates LoadSample.freeLists LoadSample.hasImage hok⟩
  next => contradiction

end System

end BrittleKernel
