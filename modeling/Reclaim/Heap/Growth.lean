import Reclaim.Fault

namespace Reclaim

structure Growth where
  factor : Float := 2.0
  initialHeapSize : Word := 4096
  minHeapSize : Word := 4096

namespace Growth

def isValid (growth : Growth) : Bool :=
  growth.factor.isFinite && 0.0 < growth.factor

def validate (growth : Growth) : Except Fault Unit :=
  if growth.isValid then .ok () else .error (.badGrowthFactor growth.factor)

/-- Whether a heap of `heapSize` bytes has to be collected before `requested` more are allocated;
    `baseline` is its size after the last collection. -/
def exceeds (growth : Growth) (baseline heapSize requested : Word) : Bool :=
  growth.factor * baseline.toFloat < heapSize.toFloat + requested.toFloat

/-- The heap size past which the next allocation starts a collection, cut to a whole number that
    fits in a word. -/
def threshold (growth : Growth) (baseline : Word) : Word :=
  (growth.factor * baseline.toFloat).toUInt64

end Growth

end Reclaim
