import Reclaim.Object.Header
import Reclaim.RawMemory
import Reclaim.Text.Quoted

namespace Reclaim

structure FinalizerEntry where
  object : Ref
  queue : QueueIndex
  light : Bool
  deriving DecidableEq

inductive Severity where
  | debug
  | trace
  deriving DecidableEq

def Severity.text : Severity → String
  | debug => "DEBUG"
  | trace => "TRACE"

inductive LogRecord where
  | thresholdExceeded (requested heapSize threshold : Word)
  | alreadyCollecting
  | collectionStarted (heapSize : Word) (objects : Nat)
  | schedulingFinalizer (entry : FinalizerEntry)
  | markFinished (reachable scheduled revived : Nat)
  | runningFinalizer (entry : FinalizerEntry)
  | collectionFinished (marked freed freedBytes weakrefsCleared : Nat) (heapSize threshold : Word)
  | bound (name : String) (object : Ref)
  deriving DecidableEq

namespace LogRecord

def severity : LogRecord → Severity
  | alreadyCollecting | schedulingFinalizer _ | runningFinalizer _ => .trace
  | _ => .debug

def text (label : Ref → String) (record : LogRecord) : String :=
  record.severity.text ++ " " ++ match record with
  | thresholdExceeded requested heapSize threshold =>
    s!"allocation exceeds growth threshold requested={requested} heap_size={heapSize} " ++
      s!"threshold={threshold}"
  | alreadyCollecting => "collection already in progress"
  | collectionStarted heapSize objects =>
    s!"collection started heap_size={heapSize} objects={objects}"
  | schedulingFinalizer entry =>
    s!"scheduling finalizer object={entry.object.text label} queue={entry.queue.text}"
  | markFinished reachable scheduled revived =>
    s!"mark finished reachable={reachable} finalizers_scheduled={scheduled} revived={revived}"
  | runningFinalizer entry =>
    s!"running finalizer object={entry.object.text label} light={entry.light}"
  | collectionFinished marked freed freedBytes weakrefsCleared heapSize threshold =>
    s!"collection finished marked={marked} freed={freed} freed_bytes={freedBytes} " ++
      s!"weakrefs_cleared={weakrefsCleared} heap_size={heapSize} threshold={threshold}"
  | bound name object => s!"bound binding={Text.quoted name} object={object.text label}"

end LogRecord

inductive Event where
  | requested (size : Word) (answer : Except ChunkError Ref)
  | released (object : Ref) (size : Word)
  | logged (record : LogRecord)

end Reclaim
