import BrittleKernel.Entry
import BrittleKernel.Lib.Hoare

/-!
# Frame Lemmas

What each elementary state update leaves alone.  The part of the state that message
passing never touches is collected in one record, so that a frame condition is a single
equation.
-/

namespace BrittleKernel

/-! ## The part that message passing leaves alone -/

/-- The Object Table without the bodies of Contexts and Interrupts, and the state of the
hardware. -/
structure Objects where
  count : Nat
  kind : TableIndex → Kind
  generation : TableIndex → Generation
  memory : TableIndex → Memory
  bodyAddr : TableIndex → Word
  current : TableIndex
  pendSv : Bool
  irqTable : Nat → Option TableIndex
  irqCount : Nat
  irqEnabled : Word → Bool
  mpu : Mpu
  ram : Word → Byte

namespace KState

def objects (s : KState) : Objects where
  count := s.count
  kind := s.kind
  generation := s.generation
  memory := s.memory
  bodyAddr := s.bodyAddr
  current := s.current
  pendSv := s.pendSv
  irqTable := s.irqTable
  irqCount := s.irqCount
  irqEnabled := s.irqEnabled
  mpu := s.mpu
  ram := s.ram

variable {s s' : KState}

theorem count_of_objects (h : s'.objects = s.objects) : s'.count = s.count :=
  congrArg Objects.count h

theorem kind_of_objects (h : s'.objects = s.objects) : s'.kind = s.kind :=
  congrArg Objects.kind h

theorem generation_of_objects (h : s'.objects = s.objects) : s'.generation = s.generation :=
  congrArg Objects.generation h

theorem memory_of_objects (h : s'.objects = s.objects) : s'.memory = s.memory :=
  congrArg Objects.memory h

theorem current_of_objects (h : s'.objects = s.objects) : s'.current = s.current :=
  congrArg Objects.current h

theorem pendSv_of_objects (h : s'.objects = s.objects) : s'.pendSv = s.pendSv :=
  congrArg Objects.pendSv h

theorem irqTable_of_objects (h : s'.objects = s.objects) : s'.irqTable = s.irqTable :=
  congrArg Objects.irqTable h

theorem irqCount_of_objects (h : s'.objects = s.objects) : s'.irqCount = s.irqCount :=
  congrArg Objects.irqCount h

theorem irqEnabled_of_objects (h : s'.objects = s.objects) : s'.irqEnabled = s.irqEnabled :=
  congrArg Objects.irqEnabled h

theorem mpu_of_objects (h : s'.objects = s.objects) : s'.mpu = s.mpu :=
  congrArg Objects.mpu h

/-- Keys resolve the same way in states with the same objects. -/
theorem isLive_of_objects (h : s'.objects = s.objects) (k : Key) : s'.isLive k = s.isLive k := by
  simp only [isLive, generation_of_objects h]

theorem resolve_of_objects (h : s'.objects = s.objects) (k : Key) :
    s'.resolve k = s.resolve k := by
  simp only [resolve, isLive_of_objects h, nullKey, filled, generation_of_objects h]

theorem target_of_objects (h : s'.objects = s.objects) (k : Key) : s'.target k = s.target k := by
  simp only [target, resolve_of_objects h]

/-! ## Elementary updates -/

variable (s)

@[simp] theorem objects_updateContext (c : TableIndex) (f : Context → Context) :
    (s.updateContext c f).objects = s.objects := rfl

@[simp] theorem objects_updateInterrupt (i : TableIndex) (f : Interrupt → Interrupt) :
    (s.updateInterrupt i f).objects = s.objects := rfl

@[simp] theorem objects_record (ev : Event) : (s.record ev).objects = s.objects := rfl

@[simp] theorem objects_setQueue (l : ListId) (p : Priority) (q : List ItemRef) :
    (s.setQueue l p q).objects = s.objects := rfl

@[simp] theorem objects_setItem (r : ItemRef) (it : Item) :
    (s.setItem r it).objects = s.objects := by
  cases r <;> rfl

@[simp] theorem objects_link (l : ListId) (p : Priority) (r : ItemRef) :
    (s.link l p r).objects = s.objects := by
  simp [link]

@[simp] theorem objects_unlink (r : ItemRef) : (s.unlink r).objects = s.objects := by
  unfold unlink
  split <;> simp

@[simp] theorem objects_setKeyAt (loc : KeyLoc) (k : Key) :
    (s.setKeyAt loc k).objects = s.objects := by
  cases loc <;> rfl

@[simp] theorem context_updateContext (c : TableIndex) (f : Context → Context) :
    (s.updateContext c f).context = Function.update s.context c (f (s.context c)) := rfl

@[simp] theorem interrupt_updateContext (c : TableIndex) (f : Context → Context) :
    (s.updateContext c f).interrupt = s.interrupt := rfl

@[simp] theorem queues_updateContext (c : TableIndex) (f : Context → Context) :
    (s.updateContext c f).queues = s.queues := rfl

@[simp] theorem kind_updateContext (c : TableIndex) (f : Context → Context) :
    (s.updateContext c f).kind = s.kind := rfl

@[simp] theorem history_updateContext (c : TableIndex) (f : Context → Context) :
    (s.updateContext c f).history = s.history := rfl

@[simp] theorem context_updateInterrupt (i : TableIndex) (f : Interrupt → Interrupt) :
    (s.updateInterrupt i f).context = s.context := rfl

@[simp] theorem interrupt_updateInterrupt (i : TableIndex) (f : Interrupt → Interrupt) :
    (s.updateInterrupt i f).interrupt = Function.update s.interrupt i (f (s.interrupt i)) := rfl

@[simp] theorem queues_updateInterrupt (i : TableIndex) (f : Interrupt → Interrupt) :
    (s.updateInterrupt i f).queues = s.queues := rfl

@[simp] theorem kind_updateInterrupt (i : TableIndex) (f : Interrupt → Interrupt) :
    (s.updateInterrupt i f).kind = s.kind := rfl

@[simp] theorem history_updateInterrupt (i : TableIndex) (f : Interrupt → Interrupt) :
    (s.updateInterrupt i f).history = s.history := rfl

@[simp] theorem context_record (ev : Event) : (s.record ev).context = s.context := rfl

@[simp] theorem interrupt_record (ev : Event) : (s.record ev).interrupt = s.interrupt := rfl

@[simp] theorem queues_record (ev : Event) : (s.record ev).queues = s.queues := rfl

@[simp] theorem kind_record (ev : Event) : (s.record ev).kind = s.kind := rfl

@[simp] theorem history_record (ev : Event) : (s.record ev).history = ev :: s.history := rfl

end KState

end BrittleKernel
