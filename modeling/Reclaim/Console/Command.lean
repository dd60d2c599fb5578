import Reclaim.Console.Error
import Reclaim.Text.Blank

namespace Reclaim.Console

inductive Command where
  | nothing
  | cell (name : String)
  | vector (name length : String)
  | blob (name length : String)
  | weak (name target : String)
  | finalizable (name : String) (light : Bool)
  | set (name slot target : String)
  | get (name slot : String)
  | drop (name : String)
  | roots
  | collect
  | stats
  | help
  deriving DecidableEq

namespace Command

def ofWords : List String → Except ConsoleError Command
  | [] => .ok nothing
  | ["cell", name] => .ok (cell name)
  | ["vector", name, length] => .ok (vector name length)
  | ["blob", name, length] => .ok (blob name length)
  | ["weak", name, target] => .ok (weak name target)
  | ["finalizable", name] => .ok (finalizable name false)
  | ["finalizable", name, "light"] => .ok (finalizable name true)
  | ["set", name, slot, target] => .ok (set name slot target)
  | ["get", name, slot] => .ok (get name slot)
  | ["drop", name] => .ok (drop name)
  | ["roots"] => .ok roots
  | ["collect"] => .ok collect
  | ["stats"] => .ok stats
  | ["help"] => .ok help
  | word :: _ => .error (.badSyntax ("unknown command or wrong arguments: " ++ word))

def ofLine (line : String) : Except ConsoleError Command :=
  ofWords (Text.words (line.toList.takeWhile (· ≠ '#')))

def helpLines : List String :=
  ["cell NAME                 allocate a cell with two reference slots",
   "vector NAME LEN           allocate a vector of LEN reference slots",
   "blob NAME LEN             allocate LEN bytes holding no references",
   "weak NAME TARGET          allocate a weak reference to TARGET",
   "finalizable NAME [light]  allocate a cell with a finalizer",
   "set NAME SLOT TARGET|nil  store a reference in a slot",
   "get NAME SLOT             show the object referenced by a slot",
   "drop NAME                 unbind a name, the object is no longer a root",
   "roots                     list bound names",
   "collect                   run a collection",
   "stats                     show heap and collection counters",
   "help                      show this text"]

end Command

end Reclaim.Console
