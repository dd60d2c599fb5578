import Reclaim.Client.Collect
import Reclaim.Console.Command
import Reclaim.Console.Kind
import Reclaim.Text.Number

namespace Reclaim.Console

/-- The part of a session that finalizers see, and the raw memory `μ` underneath. -/
structure Reports (μ : Type) where
  memory : μ
  labels : Std.TreeMap Ref String := ∅
  messages : Array String := #[]

namespace Reports

variable {μ : Type}

instance [RawMemory μ] : RawMemory (Reports μ) where
  request size reports :=
    let (answer, memory) := RawMemory.request size reports.memory
    (answer, { reports with memory })
  release object size reports :=
    { reports with memory := RawMemory.release object size reports.memory }

/-- The label of an object; one without a label is shown by its address. -/
def nameOf (reports : Reports μ) (object : Ref) : String :=
  reports.labels.getD object (object.text Ref.address)

def report (light : Bool) (object : Ref) (reports : Reports μ) : Reports μ :=
  let message := "finalized " ++ reports.nameOf object ++ (if light then " (light)" else "")
  { reports with messages := reports.messages.push message }

end Reports

structure Session (μ : Type) where
  collector : Collector (Reports μ)
  bindings : Std.TreeMap String RootId := ∅

abbrev SessionM (μ : Type) := EStateM Fault (Session μ)

abbrev CommandM (μ : Type) := ExceptT ConsoleError (SessionM μ)

namespace Session

variable {μ : Type}

def heap (session : Session μ) : Heap (Reports μ) :=
  session.collector.heap

def queueOf (light : Bool) : QueueIndex :=
  if light then ⟨1⟩ else ⟨0⟩

def reporter (light : Bool) (object : Ref) : Program (Reports μ) :=
  .host (·.report light object) .done

def create (growth : Growth) (memory : μ) : Except Fault (Session μ) := do
  let collector ← Collector.create Kind.types growth { memory }
  return { collector := { collector with queues := #[reporter false, reporter true] } }

def onCollector {α : Type} (action : CollectorM (Reports μ) α) : SessionM μ α :=
  fun ⟨collector, bindings⟩ =>
    match action collector with
    | .ok value collector => .ok value ⟨collector, bindings⟩
    | .error fault collector => .error fault ⟨collector, bindings⟩

def onReports (update : Reports μ → Reports μ) : SessionM μ Unit :=
  onCollector (Collector.onHeap (modify fun heap => { heap with host := update heap.host }))

def look {α : Type} (read : Heap (Reports μ) → Except Fault α) : SessionM μ α :=
  onCollector (Collector.onHeap (Heap.check read))

def readNumber (word : String) : CommandM μ Word :=
  match Text.readWord? word with
  | some n => return n
  | none => throw (.badSyntax s!"expected a number, found '{word}'")

def resolve (name : String) : CommandM μ Ref := do
  let session ← get
  match session.bindings[name]?.bind session.heap.roots.get with
  | some object => return object
  | none => throw (.unknownName name)

/-- What a slot is to hold: `nil` is the empty reference, whatever is bound to that name. -/
def resolveTarget (name : String) : CommandM μ (Option Ref) := do
  if name = "nil" then return none
  else return some (← resolve name)

def slotOffset (name : String) (object : Ref) (word : String) : CommandM μ Word := do
  let slot ← readNumber word
  match ← ExceptT.lift (look fun heap => Kind.slotOffset heap object slot) with
  | some offset => return offset
  | none => throw (.badSlot name slot)

def describe (session : Session μ) : Option Ref → String
  | none => "nil"
  | some object => session.heap.host.nameOf object

variable [RawMemory μ]

def apply (operation : Operation) : SessionM μ operation.Answer :=
  onCollector (Collector.apply operation)

def allocate (request : Request) : CommandM μ Ref := do
  match ← ExceptT.lift (apply (.allocate request)) with
  | .ok object => return object
  | .error error => throw (.allocation error)

/-- Labels a new object and binds a name to it, in place of what the name was bound to before. -/
def bindName (name : String) (object : Ref) : SessionM μ Unit := do
  onReports fun reports => { reports with labels := reports.labels.insert object name }
  match (← get).bindings[name]? with
  | some root => apply (.setRoot root (some object))
  | none =>
    let root ← apply (.addRoot object)
    modify fun session => { session with bindings := session.bindings.insert name root }
  onCollector (Collector.onHeap (Heap.log (.bound name object)))

def makeSized (kind : Kind) (item : Word) (name length : String) : CommandM μ (List String) := do
  let length ← readNumber length
  let object ← allocate (.varsize kind.typeId length 8 item 0)
  ExceptT.lift (bindName name object)
  return [s!"{name} = {kind.name}[{length}]"]

def rootLines (session : Session μ) : List String :=
  session.bindings.toList.filterMap fun (name, root) =>
    (session.heap.roots.get root).map fun object =>
      s!"{name}: {(Kind.of session.heap object).name}"

def statsLines (session : Session μ) : List String :=
  let heap := session.heap
  let stats := heap.stats
  [s!"heap size:          {heap.heapSize}",
   s!"objects:            {heap.objects.size}",
   s!"growth threshold:   {heap.threshold}",
   s!"pending finalizers: {heap.finalizers.size}",
   s!"weak holders:       {heap.weakHolders.size}",
   s!"collections:        {stats.collections}",
   s!"objects freed:      {stats.objectsFreed}",
   s!"bytes freed:        {stats.bytesFreed}",
   s!"finalizers run:     {stats.finalizersRun} ({stats.lightFinalizersRun} light)",
   s!"weak refs cleared:  {stats.weakrefsCleared}"]

def run : Command → CommandM μ (List String)
  | .nothing => return []
  | .cell name => do
    let object ← allocate (.fixed Kind.cell.typeId 16 none false)
    ExceptT.lift (bindName name object)
    return [s!"{name} = cell"]
  | .vector name length => makeSized .vector 8 name length
  | .blob name length => makeSized .blob 1 name length
  | .weak name target => do
    let target ← resolveTarget target
    let object ← allocate (.fixed Kind.weak.typeId 8 none true)
    ExceptT.lift (apply (.writeRef object 0 target))
    ExceptT.lift (bindName name object)
    return [s!"{name} = weak -> {(← get).describe target}"]
  | .finalizable name light => do
    let finalizer : Finalizer := { queue := queueOf light, light }
    let object ← allocate (.fixed Kind.cell.typeId 16 (some finalizer) false)
    ExceptT.lift (bindName name object)
    return [s!"{name} = finalizable cell"]
  | .set name slot target => do
    let object ← resolve name
    let offset ← slotOffset name object slot
    let target ← resolveTarget target
    ExceptT.lift (apply (.writeRef object offset target))
    return [s!"{name}.{slot} = {(← get).describe target}"]
  | .get name slot => do
    let object ← resolve name
    let offset ← slotOffset name object slot
    let target ← ExceptT.lift (look fun heap => heap.readRef object offset)
    return [s!"{name}.{slot} = {(← get).describe target}"]
  | .drop name => do
    match (← get).bindings[name]? with
    | none => throw (.unknownName name)
    | some root =>
      modify fun session => { session with bindings := session.bindings.erase name }
      ExceptT.lift (apply (.removeRoot root))
      return [s!"dropped {name}"]
  | .roots => return (← get).rootLines
  | .collect => do
    let before := (← get).heap.stats.weakrefsCleared
    ExceptT.lift (apply .collect)
    let heap := (← get).heap
    let stats := heap.stats
    let cleared := stats.weakrefsCleared - before
    return [s!"freed {stats.lastFreed} objects ({stats.lastFreedBytes} bytes), " ++
      s!"cleared {cleared} weak refs, heap size {heap.heapSize}"]
  | .stats => return (← get).statsLines
  | .help => return Command.helpLines

/-- Forgets the labels of objects that have been freed, so that no label is passed on to a new
    object at the same address. -/
def forgetLabels : SessionM μ Unit := do
  let objects := (← get).heap.objects
  onReports fun reports =>
    { reports with labels := reports.labels.filter fun object _ => objects.contains object }

/-- Executes a line. Answers with the lines to print, those reported by finalizers in front. Reports
    made during a line that ends with an error are dropped with its output. -/
def execute (line : String) : SessionM μ (Except ConsoleError (List String)) := do
  let collections := (← get).heap.stats.collections
  let result ← ((do run (← (Command.ofLine line))) : CommandM μ (List String)).run
  if (← get).heap.stats.collections ≠ collections then forgetLabels
  let messages := (← get).heap.host.messages.toList
  onReports fun reports => { reports with messages := #[] }
  return result.map fun lines => messages ++ lines

end Session

end Reclaim.Console
