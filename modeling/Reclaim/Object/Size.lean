import Reclaim.Word.Basic

namespace Reclaim

def headerSize : Word := Word.size

def allocationCost? (payloadSize : Word) : Option Word := do
  Word.alignUp? (← Word.add? headerSize payloadSize)

end Reclaim
