import BrittleKernel.Runs
import BrittleKernel.System.Calls

/-!
# The Syscall Server

The loop in which the system task answers the messages that arrive at its gate
(`serve_syscalls`), with the key registers that it reserves and reuses for every client.
-/

namespace BrittleKernel.System

open Hoare KState

/-! ## Key registers (`a/rt/keys.cc`, `a/sys/keys.h`) -/

abbrev KeyReg := Fin 16

namespace Ki

def null : KeyReg := 0

def syscallGate : KeyReg := 3

end Ki

/-- Why the server stops. -/
inductive ServerStop where
  | stop (s : Stop)
  /-- `ETL_ASSERT`: out of key registers. -/
  | outOfKeys
  /-- The endless loop that stands for an exit. -/
  | spins

/-- The variables of the server, over those of the system task. -/
structure Server where
  sys : State
  /-- The key registers other than `ki::ot`, which `sys` holds. -/
  keys : KeyReg → Key
  /-- `available_keys`. -/
  available : Word
  msg : Message
  brand : Brand

abbrev Serving (α : Type) := EStateM ServerStop Server α

/-- Run a function of the system task. -/
def onSys {α : Type} (x : Sys α) : Serving α := fun s =>
  match x s.sys with
  | .ok a σ => .ok a { s with sys := σ }
  | .error e σ => .error (.stop e) { s with sys := σ }

/-- `AutoKey::AutoKey`. -/
def autoKey : Serving KeyReg := do
  let s ← get
  match (List.finRange 16).find? fun i => i ≠ Ki.null ∧ s.available.getLsbD i with
  | none => throw .outOfKeys
  | some i =>
    set { s with available := s.available &&& ~~~(1#32 <<< (i : Nat)) }
    return i

/-- `AutoKey::~AutoKey`. -/
def release (i : KeyReg) : Serving Unit :=
  modify fun s => { s with available := s.available ||| 1#32 <<< (i : Nat) }

/-- What `main` leaves available: `ki::ot`, `ki::self` and `ki::syscall_gate` are reserved, and
the registers that it and the app's setup used are free again. -/
def availableAtServe : Word := 0xFFF0#32

/-! ## Messages -/

/-- The requests that the server knows (`a/sys/selectors.h`). -/
inductive Syscall where
  | mapMemory
  | exit
deriving DecidableEq

def Syscall.ofSelector (s : Selector) : Option Syscall :=
  match s.toNat with
  | 1 => some mapMemory
  | 2 => some exit
  | _ => none

/-- The table index of the caller's Context. -/
def callerOti (brand : Brand) : Word := brand.low &&& 0xFFFF#32

/-- What the server finds after its receive. -/
inductive Arrival where
  /-- A message with the brand of the gate key that it came through, and its keys. -/
  | message (m : Message) (brand : Brand) (keys : Keys)
  /-- An exception, which leaves the key registers as they are. -/
  | exception (x : Exception) (param : Word)

/-- What the server asks of the kernel when it receives: a message to send first, or none, and
the key in the message's target register. -/
structure Exchange where
  message : Message
  target : Key
  keys : Keys
  /-- The kernel state that the server leaves. -/
  kernel : KState

def baseReceiveDescriptor : Descriptor :=
  (Descriptor.zero.withReceiveEnabled true).withSource Ki.syscallGate

def makeZeroReply (k : KeyReg) : Serving Unit :=
  modify fun s =>
    { s with msg := { desc := (baseReceiveDescriptor.withSendEnabled true).withTarget k } }

def makeErrorReply (k : KeyReg) (exc : Exception) : Serving Unit :=
  modify fun s =>
    { s with
      msg := {
        desc := ((baseReceiveDescriptor.withSendEnabled true).withTarget k).withError true
        d0 := exc.code.setWidth 32
        d1 := (exc.code >>> 32).setWidth 32 } }

/-! ## The server -/

section

variable (build : Build) (kClientReply kTmp1 : KeyReg)

/-- The `map_memory` case. -/
def mapMemory (oti : Word) : Serving Unit := do
  -- The register of the minted key is free again at the end of the case.
  let kCtx ← autoKey
  let key ← onSys (mintKey build oti 0#64)
  modify fun s => { s with keys := Function.update s.keys kCtx key }
  let s ← get
  onSys (setRegion build (s.keys kCtx) s.msg.d0 (s.keys kTmp1))
  makeZeroReply kClientReply
  release kCtx

/-- The loop body past the receive. -/
def serveMessage : Serving Unit := do
  let s ← get
  if s.msg.desc.getError then
    modify fun s => { s with msg := { s.msg with desc := baseReceiveDescriptor } }
  else
    match Syscall.ofSelector s.msg.desc.getSelector with
    | some .mapMemory => mapMemory build kClientReply kTmp1 (callerOti s.brand)
    | some .exit =>
      let _ ← autoKey
      let _ ← onSys (mintKey build (callerOti s.brand) 0#64)
      throw .spins
    | none => makeErrorReply kClientReply .badOperation

/-- What the receive of the loop asks for.  The reply map is empty: register 0 four times. -/
def Server.asks (s : Server) : Exchange where
  message := s.msg
  target := s.keys s.msg.desc.getTarget
  keys := fun _ => s.keys Ki.null
  kernel := s.sys.kernel

/-- What comes of the receive, in the kernel state that others have left meanwhile. -/
def Server.accept (s : Server) (a : Arrival) (world : KState) : Server :=
  match a with
  | .message m brand keys =>
    { s with
      sys := { s.sys with kernel := world }
      keys := Function.update (Function.update s.keys kClientReply (keys 0)) kTmp1 (keys 1)
      msg := m
      brand := brand }
  | .exception x param =>
    { s with
      sys := { s.sys with kernel := world }
      msg := Message.failure x param
      brand := 0#64 }

/-- The loop, for as long as something arrives. -/
def serveLoop : List (Arrival × KState) → Serving (List Exchange)
  | [] => return [(← get).asks]
  | (a, world) :: rest => do
    let x := (← get).asks
    modify (·.accept kClientReply kTmp1 a world)
    serveMessage build kClientReply kTmp1
    return x :: (← serveLoop rest)

end

/-- `serve_syscalls`. -/
def serveSyscalls (build : Build) (arrivals : List (Arrival × KState)) :
    Serving (List Exchange) := do
  modify fun s => { s with msg := { desc := baseReceiveDescriptor } }
  let kClientReply ← autoKey
  let kTmp1 ← autoKey
  serveLoop build kClientReply kTmp1 arrivals

/-! ## What a client is promised -/

namespace Exchange

variable (x : Exchange)

/-- One message goes through the key, an error or not. -/
structure Sends (k : Key) (error : Bool) : Prop where
  enabled : x.message.desc.getSendEnabled = true
  target : x.target = k
  error : x.message.desc.getError = error

/-- The server goes on to receive from its gate. -/
structure Receives : Prop where
  enabled : x.message.desc.getReceiveEnabled = true
  source : x.message.desc.getSource = Ki.syscallGate

/-- Region register `i` of the Context holds the key, or null in place of a dead one. -/
def Installs (c : TableIndex) (i : Word) (k : Key) : Prop :=
  ∃ h : i.toNat < nTaskRegions,
    x.kernel.resolve ((x.kernel.context c).regions ⟨i.toNat, h⟩) = x.kernel.resolve k

end Exchange

namespace Arrival

/-- A message that came through a client's key: its brand names a Context, and it is no exit. -/
def FromClient (world : KState) : Arrival → Prop
  | message m brand _ => m.desc.getError = false →
      (callerOti brand).toNat < world.count ∧ world.kind (callerOti brand).toNat = .context ∧
        Syscall.ofSelector m.desc.getSelector ≠ some .exit
  | exception _ _ => True

/-- A request for a region that the kernel does not have. -/
def Refused : Arrival → Prop
  | message m _ _ => m.desc.getError = false ∧
      Syscall.ofSelector m.desc.getSelector = some .mapMemory ∧ nTaskRegions ≤ m.d0.toNat
  | exception _ _ => False

/-- The next thing that the server asks of the kernel is the right answer. -/
def Answered (x : Exchange) : Arrival → Prop
  | message m brand keys =>
      if m.desc.getError then x.message.desc.getSendEnabled = false
      else if Syscall.ofSelector m.desc.getSelector = some .mapMemory ∧ m.d0.toNat < nTaskRegions then
        x.Sends (keys 0) false ∧ x.Installs (callerOti brand).toNat m.d0 (keys 1)
      else x.Sends (keys 0) true
  | exception _ _ => x.message.desc.getSendEnabled = false

end Arrival

/-! ## Specifications -/

section

variable {build : Build} {s : Server} {E : ServerStop → Server → Prop}

@[simp] theorem wp_onSys {α : Type} {x : Sys α} {Q : α → Server → Prop} :
    wp (onSys x) Q E s ↔
      wp x (fun a σ => Q a { s with sys := σ }) (fun e σ => E (.stop e) { s with sys := σ }) s.sys := by
  simp only [wp, onSys]
  cases x s.sys <;> rfl

@[simp] theorem wp_release {i : KeyReg} {Q : Unit → Server → Prop} :
    wp (release i) Q E s ↔ Q () { s with available := s.available ||| 1#32 <<< (i : Nat) } := Iff.rfl

@[simp] theorem wp_makeZeroReply {k : KeyReg} {Q : Unit → Server → Prop} :
    wp (makeZeroReply k) Q E s ↔
      Q () { s with msg := { desc := (baseReceiveDescriptor.withSendEnabled true).withTarget k } } :=
  Iff.rfl

theorem wp_autoKey {i : KeyReg} {Q : KeyReg → Server → Prop}
    (hfind : ((List.finRange 16).find? fun i => i ≠ Ki.null ∧ s.available.getLsbD i) = some i) :
    wp autoKey Q E s ↔ Q i { s with available := s.available &&& ~~~(1#32 <<< (i : Nat)) } := by
  simp only [autoKey, wp_bind, wp_get, hfind, wp_set, wp_pure]

/-! ## One message -/

/-- Registers 1 to 5 are taken: 4 and 5 by the server, for the keys of its clients. -/
def availableInLoop : Word := 0xFFC0#32

def clientReplyReg : KeyReg := 4

def tmp1Reg : KeyReg := 5

def contextReg : KeyReg := 6

/-- The server after it has written a client's region register. -/
def Server.mapped (s : Server) (oti : Word) (i : Fin nTaskRegions) : Server :=
  { s with
    sys := (s.sys.minted oti 0#64).over
      (withRegion (s.sys.minted oti 0#64).kernel oti.toNat i (s.keys tmp1Reg))
    keys := Function.update s.keys contextReg (s.sys.kernel.filled oti.toNat 0#64)
    msg := { desc := (baseReceiveDescriptor.withSendEnabled true).withTarget clientReplyReg } }

theorem wp_mapMemory {oti : Word} {Q : Unit → Server → Prop} (havailable : s.available = availableInLoop)
    (htable : s.sys.HasTable) (hcount : oti.toNat < s.sys.kernel.count)
    (hkind : s.sys.kernel.kind oti.toNat = .context) :
    wp (mapMemory build clientReplyReg tmp1Reg oti) Q never s ↔
      ∃ h : s.msg.d0.toNat < nTaskRegions, Q () (s.mapped oti ⟨s.msg.d0.toNat, h⟩) := by
  have hfind : ((List.finRange 16).find? fun i => i ≠ Ki.null ∧ s.available.getLsbD i) =
      some contextReg := by
    rw [havailable]
    decide
  have hrestored : availableInLoop &&& ~~~(1#32 <<< (contextReg : Nat)) |||
      1#32 <<< (contextReg : Nat) = availableInLoop := by
    decide
  have hlive := (s.sys.minted oti 0#64).kernel.isLive_filled oti.toNat 0#64
  have htarget := (s.sys.minted oti 0#64).kernel.target_filled oti.toNat 0#64
  have hkind' : (s.sys.minted oti 0#64).kernel.kind oti.toNat = .context := hkind
  have hkey : (s.sys.minted oti 0#64).kernel.filled oti.toNat 0#64 =
      s.sys.kernel.filled oti.toNat 0#64 := rfl
  rw [hkey] at hlive htarget
  have hbrand : (s.sys.kernel.filled oti.toNat 0#64).brand.isTop = false := by
    show Brand.isTop 0#64 = false
    decide
  have hne : tmp1Reg ≠ contextReg := by decide
  simp only [mapMemory, wp_bind, wp_autoKey hfind, wp_onSys, wp_mintKey htable, if_pos hcount,
    wp_modify, wp_get, Function.update_self, Function.update_of_ne hne]
  rw [wp_setRegion hlive (by rw [htarget, hkind']) hbrand, htarget]
  by_cases h : s.msg.d0.toNat < nTaskRegions
  · simp only [h, dif_pos, wp_makeZeroReply, wp_release, havailable, hrestored, exists_true_left]
    rw [← havailable]
    rfl
  · simp [h, never]

theorem wp_serveMessage_error {Q : Unit → Server → Prop} (herror : s.msg.desc.getError = true) :
    wp (serveMessage build clientReplyReg tmp1Reg) Q E s ↔
      Q () { s with msg := { s.msg with desc := baseReceiveDescriptor } } := by
  simp only [serveMessage, wp_bind, wp_get, herror, if_true, wp_modify]

theorem wp_serveMessage_mapMemory {Q : Unit → Server → Prop} (herror : s.msg.desc.getError = false)
    (hselector : Syscall.ofSelector s.msg.desc.getSelector = some .mapMemory)
    (havailable : s.available = availableInLoop) (htable : s.sys.HasTable)
    (hcount : (callerOti s.brand).toNat < s.sys.kernel.count)
    (hkind : s.sys.kernel.kind (callerOti s.brand).toNat = .context) :
    wp (serveMessage build clientReplyReg tmp1Reg) Q never s ↔
      ∃ h : s.msg.d0.toNat < nTaskRegions,
        Q () (s.mapped (callerOti s.brand) ⟨s.msg.d0.toNat, h⟩) := by
  simp only [serveMessage, wp_bind, wp_get, herror, Bool.false_eq_true, if_false, hselector]
  exact wp_mapMemory havailable htable hcount hkind

/-- The message that `make_error_reply` leaves. -/
def errorReply (exc : Exception) : Message where
  desc := ((baseReceiveDescriptor.withSendEnabled true).withTarget clientReplyReg).withError true
  d0 := exc.code.setWidth 32
  d1 := (exc.code >>> 32).setWidth 32

theorem wp_serveMessage_unknown {Q : Unit → Server → Prop} (herror : s.msg.desc.getError = false)
    (hselector : Syscall.ofSelector s.msg.desc.getSelector = none) :
    wp (serveMessage build clientReplyReg tmp1Reg) Q E s ↔
      Q () { s with msg := errorReply .badOperation } := by
  simp only [serveMessage, wp_bind, wp_get, herror, Bool.false_eq_true, if_false, hselector]
  rfl

/-- What the server sends and receives next is in the descriptor of its message. -/
structure Server.Answering (s : Server) (k : KeyReg) (error : Bool) : Prop where
  send : s.msg.desc.getSendEnabled = true
  target : s.msg.desc.getTarget = k
  error : s.msg.desc.getError = error
  receive : s.msg.desc.getReceiveEnabled = true
  source : s.msg.desc.getSource = Ki.syscallGate

theorem Server.Answering.receives {k : KeyReg} {error : Bool} (h : s.Answering k error) :
    s.asks.Receives :=
  ⟨h.receive, h.source⟩

theorem Server.Answering.sends {k : KeyReg} {error : Bool} (h : s.Answering k error) :
    s.asks.Sends (s.keys k) error where
  enabled := h.send
  target := by
    show s.keys s.msg.desc.getTarget = s.keys k
    rw [h.target]
  error := h.error

theorem answering_mapped (s : Server) (oti : Word) (i : Fin nTaskRegions) :
    (s.mapped oti i).Answering clientReplyReg false := by
  constructor
  all_goals
    simp only [Server.mapped]
    decide

theorem keys_mapped (s : Server) (oti : Word) (i : Fin nTaskRegions) :
    (s.mapped oti i).keys clientReplyReg = s.keys clientReplyReg := by
  have hne : clientReplyReg ≠ contextReg := by decide
  simp only [Server.mapped, Function.update_of_ne hne]

/-- The kernel has the key from the client's message in the region register. -/
theorem installs_mapped (s : Server) (oti index : Word) (h : index.toNat < nTaskRegions) :
    (s.mapped oti ⟨index.toNat, h⟩).asks.Installs oti.toNat index (s.keys tmp1Reg) := by
  refine ⟨h, ?_⟩
  show (withRegion _ _ _ _).resolve _ = (withRegion _ _ _ _).resolve _
  rw [resolve_withRegion, resolve_withRegion]
  exact regions_withRegion _ _ _ _

theorem answering_errorReply (s : Server) (exc : Exception) :
    ({ s with msg := errorReply exc } : Server).Answering clientReplyReg true := by
  constructor
  all_goals
    simp only [errorReply]
    decide

/-- The bare descriptor of a receive. -/
theorem receives_base (m : Message) (hm : m.desc = baseReceiveDescriptor) :
    ({ s with msg := m } : Server).asks.Receives ∧ m.desc.getSendEnabled = false := by
  have hbase : baseReceiveDescriptor.getReceiveEnabled = true ∧
      baseReceiveDescriptor.getSource = Ki.syscallGate ∧
        baseReceiveDescriptor.getSendEnabled = false := by
    decide
  rw [← hm] at hbase
  exact ⟨⟨hbase.1, hbase.2.1⟩, hbase.2.2⟩

/-- The server with a message that arrived. -/
structure Server.Holds (s : Server) (a : Arrival) (world : KState) (ot : Key) : Prop where
  available : s.available = availableInLoop
  ot : s.sys.ot = ot
  kernel : s.sys.kernel = world
  arrival : match a with
    | .message m brand keys =>
      s.msg = m ∧ s.brand = brand ∧ s.keys clientReplyReg = keys 0 ∧ s.keys tmp1Reg = keys 1
    | .exception x param => s.msg = Message.failure x param

theorem Server.holds_accept (s : Server) (a : Arrival) (world : KState) (havailable : s.available = availableInLoop) :
    (s.accept clientReplyReg tmp1Reg a world).Holds a world s.sys.ot := by
  cases a with
  | exception x param => exact ⟨havailable, rfl, rfl, rfl⟩
  | message m brand keys =>
    have hne : clientReplyReg ≠ tmp1Reg := by decide
    refine ⟨havailable, rfl, rfl, rfl, rfl, ?_, ?_⟩
    · simp only [Server.accept, Function.update_of_ne hne, Function.update_self]
    · simp only [Server.accept, Function.update_self]

/-- Register `ki::ot` holds a live key to the Object Table of the kernel state. -/
structure TableKey (world : KState) (ot : Key) : Prop where
  live : world.isLive ot = true
  kind : world.kind (world.target ot) = .objectTable

section

variable {a : Arrival} {world : KState} {ot : Key}

theorem Server.Holds.hasTable (h : s.Holds a world ot) (htable : TableKey world ot) :
    s.sys.HasTable := by
  constructor
  · rw [h.kernel, h.ot, htable.live]
  · rw [h.kernel, h.ot, htable.kind]

/-- A refused request stops the server. -/
theorem not_wp_of_refused {Q : Unit → Server → Prop} (h : s.Holds a world ot)
    (htable : TableKey world ot) (hclient : a.FromClient world) (hrefused : a.Refused) :
    ¬wp (serveMessage build clientReplyReg tmp1Reg) Q never s := by
  cases a with
  | exception x param => exact fun _ => hrefused
  | message m brand keys =>
    obtain ⟨hmsg, hbrand, -⟩ := h.arrival
    obtain ⟨herror, hselector, hindex⟩ := hrefused
    obtain ⟨hcount, hkind, -⟩ := hclient herror
    rw [← hmsg] at herror hselector hindex
    rw [← hbrand, ← h.kernel] at hcount hkind
    rw [wp_serveMessage_mapMemory herror hselector h.available (h.hasTable htable) hcount hkind]
    rintro ⟨hlt, -⟩
    exact Nat.not_lt.mpr hindex hlt

/-- Any other arrival is answered, and the server comes to its receive again. -/
theorem wp_of_not_refused (h : s.Holds a world ot) (htable : TableKey world ot)
    (hclient : a.FromClient world) (hrefused : ¬a.Refused) :
    wp (serveMessage build clientReplyReg tmp1Reg)
      (fun _ s' => s'.available = availableInLoop ∧ s'.sys.ot = ot ∧ s'.asks.Receives ∧
        a.Answered s'.asks)
      never s := by
  -- An error is dropped, and the next receive sends nothing.
  have hdropped : s.msg.desc.getError = true →
      wp (serveMessage build clientReplyReg tmp1Reg)
        (fun _ s' => s'.available = availableInLoop ∧ s'.sys.ot = ot ∧ s'.asks.Receives ∧
          s'.asks.message.desc.getSendEnabled = false)
        never s := by
    intro herror
    rw [wp_serveMessage_error herror]
    obtain ⟨hreceives, hsilent⟩ := receives_base (s := s)
      { s.msg with desc := baseReceiveDescriptor } rfl
    exact ⟨h.available, h.ot, hreceives, hsilent⟩
  cases a with
  | exception x param =>
    have hmsg := h.arrival
    apply hdropped
    rw [hmsg]
    exact getError_failure x param
  | message m brand keys =>
    obtain ⟨hmsg, hbrand, hreply, htmp⟩ := h.arrival
    cases herror : m.desc.getError with
    | true =>
      apply wp_mono (hdropped (by rw [hmsg, herror]))
      · rintro _ s' ⟨havailable, hot, hreceives, hsilent⟩
        refine ⟨havailable, hot, hreceives, ?_⟩
        rw [Arrival.Answered, if_pos herror]
        exact hsilent
      · intro e s' hfalse
        exact hfalse
    | false =>
      obtain ⟨hcount, hkind, hexit⟩ := hclient herror
      cases hselector : Syscall.ofSelector m.desc.getSelector with
      | none =>
        rw [← hmsg] at hselector
        rw [wp_serveMessage_unknown (by rw [hmsg, herror]) hselector]
        have hanswer := answering_errorReply s .badOperation
        refine ⟨h.available, h.ot, hanswer.receives, ?_⟩
        rw [hmsg] at hselector
        rw [Arrival.Answered, if_neg (by simp [herror]), if_neg (by simp [hselector]), ← hreply]
        exact hanswer.sends
      | some call =>
        cases call with
        | exit => exact absurd hselector hexit
        | mapMemory =>
          have hindex : m.d0.toNat < nTaskRegions := by
            by_contra hindex
            exact hrefused ⟨herror, hselector, Nat.not_lt.mp hindex⟩
          rw [← hmsg] at herror hselector hindex
          rw [← hbrand, ← h.kernel] at hcount hkind
          rw [wp_serveMessage_mapMemory herror hselector h.available (h.hasTable htable) hcount hkind]
          have hanswer := answering_mapped s (callerOti s.brand) ⟨s.msg.d0.toNat, hindex⟩
          refine ⟨hindex, h.available, h.ot, hanswer.receives, ?_⟩
          rw [hmsg] at herror hselector
          rw [Arrival.Answered, if_neg (by simp [herror]), if_pos ⟨hselector, hmsg ▸ hindex⟩, ← hreply,
            ← htmp, ← hbrand]
          refine ⟨?_, ?_⟩
          · rw [← keys_mapped s (callerOti s.brand) ⟨s.msg.d0.toNat, hindex⟩]
            exact hanswer.sends
          · rw [← hmsg]
            exact installs_mapped s (callerOti s.brand) s.msg.d0 hindex

/-! ## The loop -/

/-- A server that does not stop has not been asked for a region that the kernel refuses. -/
theorem not_refused_of_wp {arrivals : List (Arrival × KState)} {Q : List Exchange → Server → Prop}
    (havailable : s.available = availableInLoop) (htable : ∀ a ∈ arrivals, TableKey a.2 s.sys.ot)
    (hclient : ∀ a ∈ arrivals, a.1.FromClient a.2)
    (hrun : wp (serveLoop build clientReplyReg tmp1Reg arrivals) Q never s) :
    ∀ a ∈ arrivals, ¬a.1.Refused := by
  induction arrivals generalizing s Q with
  | nil => simp
  | cons arrival arrivals ih =>
    obtain ⟨a, world⟩ := arrival
    obtain ⟨htable', htables⟩ := List.forall_mem_cons.mp htable
    obtain ⟨hclient', hclients⟩ := List.forall_mem_cons.mp hclient
    have hholds := s.holds_accept a world havailable
    simp only [serveLoop, wp_bind, wp_get, wp_modify, wp_pure] at hrun
    have hfirst : ¬a.Refused := fun h => not_wp_of_refused hholds htable' hclient' h hrun
    refine List.forall_mem_cons.mpr ⟨hfirst, ?_⟩
    -- The rest of the run starts in the state that the first round leaves.
    have hboth := wp_mono (wp_and (wp_of_not_refused hholds htable' hclient' hfirst) hrun) (fun _ _ h => h) (fun _ _ h => h.1)
    obtain ⟨_, s', -, ⟨havailable', hot, -⟩, hrest⟩ := exists_ok hboth
    rw [← hot] at htables
    exact ih havailable' htables hclients hrest

/-- Each arrival is answered by the next exchange, as long as none is refused. -/
theorem wp_serveLoop {arrivals : List (Arrival × KState)} (havailable : s.available = availableInLoop)
    (htable : ∀ a ∈ arrivals, TableKey a.2 s.sys.ot)
    (hclient : ∀ a ∈ arrivals, a.1.FromClient a.2) (hrefused : ∀ a ∈ arrivals, ¬a.1.Refused) :
    wp (serveLoop build clientReplyReg tmp1Reg arrivals)
      (fun xs _ => ∃ rest, xs = s.asks :: rest ∧
        List.Forall₂ (fun a x => a.1.Answered x ∧ x.Receives) arrivals rest)
      never s := by
  induction arrivals generalizing s with
  | nil => exact ⟨[], rfl, .nil⟩
  | cons arrival arrivals ih =>
    obtain ⟨a, world⟩ := arrival
    obtain ⟨htable', htables⟩ := List.forall_mem_cons.mp htable
    obtain ⟨hclient', hclients⟩ := List.forall_mem_cons.mp hclient
    obtain ⟨hrefused', hrest⟩ := List.forall_mem_cons.mp hrefused
    have hholds := s.holds_accept a world havailable
    simp only [serveLoop, wp_bind, wp_get, wp_modify, wp_pure]
    apply wp_conseq (wp_of_not_refused hholds htable' hclient' hrefused')
    rintro _ s' ⟨havailable', hot, hreceives, hanswered⟩
    rw [← hot] at htables
    apply wp_conseq (ih havailable' htables hclients hrest)
    rintro xs s'' ⟨rest, rfl, hall⟩
    exact ⟨_, rfl, .cons ⟨hanswered, hreceives⟩ hall⟩

end

end

/-- The server once its two registers are reserved. -/
def Server.started (sys : State) (keys : KeyReg → Key) (brand : Brand) : Server where
  sys := sys
  keys := keys
  available := availableInLoop
  msg := { desc := baseReceiveDescriptor }
  brand := brand

theorem wp_serveSyscalls {build : Build} {arrivals : List (Arrival × KState)} {sys : State}
    {keys : KeyReg → Key} {msg : Message} {brand : Brand} {Q : List Exchange → Server → Prop}
    {E : ServerStop → Server → Prop} :
    wp (serveSyscalls build arrivals) Q E ⟨sys, keys, availableAtServe, msg, brand⟩ ↔
      wp (serveLoop build clientReplyReg tmp1Reg arrivals) Q E (Server.started sys keys brand) := by
  have hfirst : ((List.finRange 16).find? fun i => i ≠ Ki.null ∧ availableAtServe.getLsbD i) =
      some clientReplyReg := by
    decide
  have hsecond : ((List.finRange 16).find? fun i => i ≠ Ki.null ∧
      (availableAtServe &&& ~~~(1#32 <<< (clientReplyReg : Nat))).getLsbD i) = some tmp1Reg := by
    decide
  have hloop : availableAtServe &&& ~~~(1#32 <<< (clientReplyReg : Nat)) &&&
      ~~~(1#32 <<< (tmp1Reg : Nat)) = availableInLoop := by
    decide
  let s : Server := ⟨sys, keys, availableAtServe, { desc := baseReceiveDescriptor }, brand⟩
  let s' : Server := { s with
    available := availableAtServe &&& ~~~(1#32 <<< (clientReplyReg : Nat)) }
  simp only [serveSyscalls, wp_bind, wp_modify]
  rw [wp_autoKey (s := s) hfirst, wp_autoKey (s := s') hsecond, hloop]
  rfl

/-- Nothing is sent before the first receive, and each arrival is answered when the server
receives again. -/
structure AnswersAll (build : Build) (arrivals : List (Arrival × KState)) (s : Server) : Prop where
  run : wp (serveSyscalls build arrivals)
    (fun xs _ => ∃ first rest, xs = first :: rest ∧
      first.message.desc.getSendEnabled = false ∧ first.Receives ∧
      List.Forall₂ (fun a x => a.1.Answered x ∧ x.Receives) arrivals rest)
    never s

section

variable {build : Build} {arrivals : List (Arrival × KState)} {sys : State} {keys : KeyReg → Key}
  {msg : Message} {brand : Brand}

theorem AnswersAll.not_refused (htable : ∀ a ∈ arrivals, TableKey a.2 sys.ot)
    (hclient : ∀ a ∈ arrivals, a.1.FromClient a.2)
    (h : AnswersAll build arrivals ⟨sys, keys, availableAtServe, msg, brand⟩) :
    ∀ a ∈ arrivals, ¬a.1.Refused := by
  have hrun := h.run
  rw [wp_serveSyscalls] at hrun
  exact not_refused_of_wp (s := Server.started sys keys brand) rfl htable hclient hrun

theorem answersAll_of_not_refused (htable : ∀ a ∈ arrivals, TableKey a.2 sys.ot)
    (hclient : ∀ a ∈ arrivals, a.1.FromClient a.2) (hrefused : ∀ a ∈ arrivals, ¬a.1.Refused) :
    AnswersAll build arrivals ⟨sys, keys, availableAtServe, msg, brand⟩ := by
  constructor
  rw [wp_serveSyscalls]
  obtain ⟨hreceives, hsilent⟩ := receives_base (s := Server.started sys keys brand)
    { desc := baseReceiveDescriptor } rfl
  apply wp_conseq (wp_serveLoop (s := Server.started sys keys brand) rfl htable hclient hrefused)
  rintro xs s' ⟨rest, rfl, hall⟩
  exact ⟨_, rest, rfl, hsilent, hreceives, hall⟩

end

/-- The server answers all that arrives at its gate, until a client asks for a region that the
kernel does not have. -/
theorem syscalls_answered_iff (build : Build) (arrivals : List (Arrival × KState)) (sys : State)
    (keys : KeyReg → Key) (msg : Message) (brand : Brand)
    (htable : ∀ a ∈ arrivals, TableKey a.2 sys.ot)
    (hclient : ∀ a ∈ arrivals, a.1.FromClient a.2) :
    AnswersAll build arrivals ⟨sys, keys, availableAtServe, msg, brand⟩ ↔
      ∀ a ∈ arrivals, ¬a.1.Refused :=
  ⟨fun h => h.not_refused htable hclient, answersAll_of_not_refused htable hclient⟩

namespace ServerSample

def build : Build := ⟨Sample.etl, 0#32, 0#32, 0#32⟩

/-- The Object Table in entry 1, the system's Context in entry 2 and a client's in entry 3. -/
def world : KState where
  count := 4
  kind := fun e => if e = 0 then .null else if e = 1 then .objectTable else .context
  current := 2

def sys : State where
  kernel := world
  ot := ⟨0#64, 0#32, some 1⟩
  memRoots := fun _ => 0#32
  slotsUsed := 0#32

/-- A reply key and a key to entry 0. -/
def clientKeys : Keys := fun i => if i = 0 then ⟨Brand.topMask, 0#32, some 3⟩ else ⟨0#64, 0#32, some 0⟩

def request (selector : Selector) (index : Word) : Arrival × KState :=
  (.message (System.request selector index) 3#64 clientKeys, world)

theorem table : TableKey world sys.ot := ⟨by decide, by decide⟩

theorem fromClient (index : Word) : (request 1#16 index).1.FromClient world := by
  intro _
  refine ⟨by decide, rfl, ?_⟩
  rw [getSelector_request]
  decide

theorem not_refused {index : Word} (h : index.toNat < nTaskRegions) :
    ¬(request 1#16 index).1.Refused := by
  rintro ⟨-, -, hindex⟩
  exact Nat.not_lt.mpr hindex h

/-- Two requests to map memory, with an exception in between. -/
def arrivals : List (Arrival × KState) :=
  [request 1#16 5#32, (.exception .wouldBlock 0#32, world), request 1#16 0#32]

end ServerSample

theorem syscalls_answered_sample :
    AnswersAll ServerSample.build ServerSample.arrivals
      ⟨ServerSample.sys, fun _ => {}, availableAtServe, {}, 0#64⟩ := by
  have htable : ∀ a ∈ ServerSample.arrivals, TableKey a.2 ServerSample.sys.ot := by
    simp only [ServerSample.arrivals, List.forall_mem_cons]
    exact ⟨ServerSample.table, ServerSample.table, ServerSample.table, by simp⟩
  have hclient : ∀ a ∈ ServerSample.arrivals, a.1.FromClient a.2 := by
    simp only [ServerSample.arrivals, List.forall_mem_cons]
    exact ⟨ServerSample.fromClient _, trivial, ServerSample.fromClient _, by simp⟩
  have hrefused : ∀ a ∈ ServerSample.arrivals, ¬a.1.Refused := by
    simp only [ServerSample.arrivals, List.forall_mem_cons]
    exact ⟨ServerSample.not_refused (by decide), id, ServerSample.not_refused (by decide), by simp⟩
  exact (syscalls_answered_iff ServerSample.build ServerSample.arrivals ServerSample.sys
    (fun _ => {}) {} 0#64 htable hclient).mpr hrefused

/-- A request for region 6, which the kernel does not have, stops the server. -/
theorem syscalls_unanswered :
    (∀ a ∈ [ServerSample.request 1#16 6#32],
      TableKey a.2 ServerSample.sys.ot ∧ a.1.FromClient a.2) ∧
    ¬AnswersAll ServerSample.build [ServerSample.request 1#16 6#32]
      ⟨ServerSample.sys, fun _ => {}, availableAtServe, {}, 0#64⟩ := by
  have htable : ∀ a ∈ [ServerSample.request 1#16 6#32], TableKey a.2 ServerSample.sys.ot := by
    intro a ha
    rw [List.mem_singleton.mp ha]
    exact ServerSample.table
  have hclient : ∀ a ∈ [ServerSample.request 1#16 6#32], a.1.FromClient a.2 := by
    intro a ha
    rw [List.mem_singleton.mp ha]
    exact ServerSample.fromClient 6#32
  refine ⟨fun a ha => ⟨htable a ha, hclient a ha⟩, fun h => ?_⟩
  refine h.not_refused htable hclient _ List.mem_cons_self ⟨by decide, ?_, by decide⟩
  show Syscall.ofSelector (request 1#16 6#32).desc.getSelector = some .mapMemory
  rw [getSelector_request]
  rfl

end BrittleKernel.System
