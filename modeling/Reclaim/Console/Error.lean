import Reclaim.Heap.Allocation

namespace Reclaim.Console

inductive ConsoleError where
  | file (reason : String)
  | input (reason : String)
  | allocation (error : AllocError)
  | badSyntax (reason : String)
  | unknownName (name : String)
  | badSlot (name : String) (slot : Word)
  | badOption (reason : String)
  deriving DecidableEq

namespace ConsoleError

def message : ConsoleError → String
  | file reason => "IO error: " ++ reason
  | input reason => "line editor error: " ++ reason
  | allocation error => "collector error: " ++ error.message
  | badSyntax reason => "syntax error: " ++ reason
  | unknownName name => s!"no object bound to '{name}'"
  | badSlot name slot => s!"{name} has no slot {slot}"
  | badOption reason => "invalid option: " ++ reason

def isRecoverable : ConsoleError → Bool
  | badSyntax _ | unknownName _ | badSlot _ _ | allocation .outOfMemory => true
  | _ => false

end ConsoleError

end Reclaim.Console
