import Reclaim.Console.Error
import Reclaim.Decimal.Read
import Reclaim.Heap.Growth
import Reclaim.Text.Number

namespace Reclaim.Console

inductive Usage where
  | shown
  | wrong
  deriving DecidableEq

def Usage.exitCode : Usage → Nat
  | shown => 0
  | wrong => 1

inductive OptionName where
  | growthFactor
  | initialHeap
  | minHeap
  deriving DecidableEq

def OptionName.text : OptionName → String
  | growthFactor => "growth-factor"
  | initialHeap => "initial-heap"
  | minHeap => "min-heap"

def OptionName.ofText? (text : String) : Option OptionName :=
  [growthFactor, initialHeap, minHeap].find? fun name => name.text = text

structure Invocation where
  script : Option String := none
  options : List (OptionName × Option String) := []
  verbose : Nat := 0
  deriving DecidableEq

namespace Invocation

def value? (invocation : Invocation) (name : OptionName) : Option String :=
  (invocation.options.find? fun entry => entry.1 = name).bind Prod.snd

def isComplete (invocation : Invocation) : Bool :=
  let names := invocation.options.map Prod.fst
  names.eraseDups.length = names.length && invocation.verbose ≤ 1 &&
    invocation.options.all fun entry => entry.2.isSome

def addScript (invocation : Invocation) (script : String) : Except Usage Invocation :=
  match invocation.script with
  | none => .ok { invocation with script := some script }
  | some _ => .error .wrong

/-- Reads an argument that starts with two dashes. It leaves a value to the next argument if it
    is an option without an equals sign. -/
def addLong (invocation : Invocation) (argument : List Char) : Except Usage (Invocation × Bool) :=
  let bare := argument.dropWhile (· = '-')
  let name := String.ofList (bare.takeWhile (· ≠ '='))
  let value := match bare.dropWhile (· ≠ '=') with
    | [] => none
    | rest => some (String.ofList (rest.dropWhile (· = '=')))
  match OptionName.ofText? name with
  | some option =>
    .ok ({ invocation with options := (option, value) :: invocation.options }, value.isNone)
  | none =>
    if name = "verbose" then .ok ({ invocation with verbose := invocation.verbose + 1 }, false)
    else if name = "help" ∨ name = "version" then .error .shown
    else .error .wrong

def addLetters (invocation : Invocation) : List Char → Except Usage Invocation
  | [] => .ok invocation
  | 'v' :: rest => { invocation with verbose := invocation.verbose + 1 }.addLetters rest
  | letter :: _ => .error (if letter = 'h' ∨ letter = 'V' then .shown else .wrong)

def giveValue (invocation : Invocation) (value : String) : Invocation :=
  match invocation.options with
  | (name, none) :: rest => { invocation with options := (name, some value) :: rest }
  | _ => invocation

/-- Reads arguments; `waiting` says that the argument before was an option without its value. -/
def addAll (invocation : Invocation) (waiting : Bool) : List String → Except Usage Invocation
  | [] => .ok invocation
  | argument :: rest =>
    match argument.toList with
    | ['-', '-'] => rest.foldlM addScript invocation
    | '-' :: '-' :: name => do
      let (invocation, waiting) ← invocation.addLong name
      invocation.addAll waiting rest
    | '-' :: letter :: letters => do
      let invocation ← invocation.addLetters (letter :: letters)
      invocation.addAll false rest
    | _ =>
      if waiting then (invocation.giveValue argument).addAll false rest
      else do
        let invocation ← invocation.addScript argument
        invocation.addAll false rest

def read (arguments : List String) : Except Usage Invocation := do
  let invocation ← addAll {} false arguments
  if invocation.isComplete then return invocation else throw .wrong

def parsed? {α : Type} (invocation : Invocation) (name : OptionName) (parse : String → Option α) :
    Except ConsoleError (Option α) :=
  match invocation.value? name with
  | none => .ok none
  | some value =>
    match parse value with
    | some parsed => .ok (some parsed)
    | none => .error (.badOption s!"--{name.text} cannot be '{value}'")

def growth (invocation : Invocation) : Except ConsoleError Growth := do
  let mut growth : Growth := {}
  if let some factor ← invocation.parsed? .growthFactor Decimal.read? then
    growth := { growth with factor }
    unless growth.isValid do
      throw (.badOption s!"growth factor must be a positive number, got {Decimal.text factor}")
  if let some initialHeapSize ← invocation.parsed? .initialHeap Text.readWord? then
    growth := { growth with initialHeapSize }
  if let some minHeapSize ← invocation.parsed? .minHeap Text.readWord? then
    growth := { growth with minHeapSize }
  return growth

end Invocation

end Reclaim.Console
