import Reclaim.Console.Session

namespace Reclaim.Console

structure Item where
  name : String := ""
  kind : Kind := .cell
  slots : Array (Option Nat) := #[]

/-- The objects that were ever created, each known by its number, and the names bound to some of
    them. -/
structure Store where
  items : Array Item := #[]
  bindings : Std.TreeMap String Nat := ∅

abbrev StoreM := ExceptT ConsoleError (StateM Store)

namespace Store

def item (store : Store) (object : Nat) : Item :=
  store.items.getD object {}

def describe (store : Store) : Option Nat → String
  | none => "nil"
  | some object => (store.item object).name

def add (item : Item) (store : Store) : Store where
  items := store.items.push item
  bindings := store.bindings.insert item.name store.items.size

def put (object slot : Nat) (target : Option Nat) (store : Store) : Store :=
  { store with
    items := store.items.modify object fun item =>
      { item with slots := item.slots.setIfInBounds slot target } }

def readNumber (word : String) : StoreM Word :=
  match Text.readWord? word with
  | some n => return n
  | none => throw (.badSyntax s!"expected a number, found '{word}'")

def resolve (name : String) : StoreM Nat := do
  match (← get).bindings[name]? with
  | some object => return object
  | none => throw (.unknownName name)

def resolveTarget (name : String) : StoreM (Option Nat) := do
  if name = "nil" then return none
  else return some (← resolve name)

def slotOf (name : String) (object : Nat) (word : String) : StoreM Nat := do
  let slot ← readNumber word
  if slot.toNat < ((← get).item object).slots.size then return slot.toNat
  else throw (.badSlot name slot)

/-- An object of so many bytes beside its length has to fit into the address space, with its length,
    a header, and what it takes to round its size up. -/
def checkSize (bytes : Nat) : StoreM Unit :=
  if bytes + 24 ≤ UInt64.size then return ()
  else throw (.allocation .outOfMemory)

def sized : Kind → Nat × Nat
  | .vector => (8, 1)
  | _ => (1, 0)

def makeSized (kind : Kind) (name length : String) : StoreM (List String) := do
  let length ← readNumber length
  let (bytes, slots) := sized kind
  checkSize (bytes * length.toNat)
  modify (add { name, kind, slots := .replicate (slots * length.toNat) none })
  return [s!"{name} = {kind.name}[{length}]"]

/-- Executes a command. What `collect` and `stats` print is about the collector; here they print
    nothing. -/
def run : Command → StoreM (List String)
  | .nothing => return []
  | .cell name => do
    modify (add { name, kind := .cell, slots := #[none, none] })
    return [s!"{name} = cell"]
  | .vector name length => makeSized .vector name length
  | .blob name length => makeSized .blob name length
  | .weak name target => do
    let target ← resolveTarget target
    modify (add { name, kind := .weak, slots := #[target] })
    return [s!"{name} = weak -> {(← get).describe target}"]
  | .finalizable name _ => do
    modify (add { name, kind := .cell, slots := #[none, none] })
    return [s!"{name} = finalizable cell"]
  | .set name slot target => do
    let object ← resolve name
    let index ← slotOf name object slot
    let target ← resolveTarget target
    modify (put object index target)
    return [s!"{name}.{slot} = {(← get).describe target}"]
  | .get name slot => do
    let object ← resolve name
    let index ← slotOf name object slot
    let store ← get
    return [s!"{name}.{slot} = {store.describe ((store.item object).slots.getD index none)}"]
  | .drop name => do
    match (← get).bindings[name]? with
    | none => throw (.unknownName name)
    | some _ =>
      modify fun store => { store with bindings := store.bindings.erase name }
      return [s!"dropped {name}"]
  | .roots => do
    let store ← get
    return store.bindings.toList.map fun (name, object) =>
      s!"{name}: {(store.item object).kind.name}"
  | .collect | .stats => return []
  | .help => return Command.helpLines

def command (line : String) : StoreM (List String) := do
  run (← Command.ofLine line)

def answer (store : Store) (line : String) : Except ConsoleError (List String) :=
  ((command line).run.run store).1

def next (store : Store) (line : String) : Store :=
  ((command line).run.run store).2

def after (lines : List String) : Store :=
  lines.foldl next {}

def IsWeak (store : Store) (name : String) : Prop :=
  ∃ object, store.bindings[name]? = some object ∧ (store.item object).kind = .weak

/-- An answer to a command agrees with the one that is expected: nothing is said about what
    `collect` and `stats` print, and a weak reference may be found empty instead, but all other
    answers are the same. -/
def Agrees (store : Store) (answer expected : Except ConsoleError (List String)) : Command → Prop
  | .collect | .stats => True
  | .get name slot =>
    answer = expected ∨
      (store.IsWeak name ∧ expected.isOk ∧
        answer = .ok [s!"{name}.{slot} = {store.describe none}"])
  | _ => answer = expected

def Allows (store : Store) (line : String) (answer : Except ConsoleError (List String)) : Prop :=
  match Command.ofLine line with
  | .ok command => store.Agrees answer (store.answer line) command
  | .error error => answer = .error error

def Foresees (store : Store) (line : String) : Prop :=
  match Command.ofLine line with
  | .ok .collect | .ok .stats => False
  | .ok (.get name _) => ¬ store.IsWeak name
  | _ => True

theorem answer_of_read {store : Store} {line : String} {command : Command}
    (read : Command.ofLine line = .ok command) :
    store.answer line = ((run command).run.run store).1 := by
  rw [answer, Store.command, read]
  rfl

theorem allows_of_read {store : Store} {line : String} {command : Command}
    (read : Command.ofLine line = .ok command) {answer : Except ConsoleError (List String)} :
    store.Allows line answer ↔ store.Agrees answer ((run command).run.run store).1 command := by
  rw [Allows, read, answer_of_read read]

theorem allows_of_unread {store : Store} {line : String} {error : ConsoleError}
    (unread : Command.ofLine line = .error error) {answer : Except ConsoleError (List String)} :
    store.Allows line answer ↔ answer = .error error := by
  rw [Allows, unread]

theorem eq_answer_of_foresees {store : Store} {line : String}
    {answer : Except ConsoleError (List String)} (foreseen : store.Foresees line)
    (allowed : store.Allows line answer) : answer = store.answer line := by
  rw [Foresees] at foreseen
  rw [Allows] at allowed
  cases read : Command.ofLine line with
  | error error =>
    rw [read] at allowed
    rw [Store.answer, Store.command, read]
    exact allowed
  | ok command =>
    rw [read] at allowed foreseen
    cases command with
    | collect => exact foreseen.elim
    | stats => exact foreseen.elim
    | get name slot => exact allowed.resolve_right fun weak => foreseen weak.1
    | _ => exact allowed

def isCollect (line : String) : Bool :=
  match Command.ofLine line with
  | .ok .collect => true
  | _ => false

theorem next_of_isCollect {line : String} (collects : isCollect line = true) (store : Store) :
    store.next line = store := by
  rw [isCollect] at collects
  split at collects
  · rename_i read
    rw [next, command, read]
    rfl
  · cases collects

theorem after_filter (lines : List String) :
    after (lines.filter fun line => ! isCollect line) = after lines := by
  rw [after, after]
  generalize ({} : Store) = store
  induction lines generalizing store with
  | nil => rfl
  | cons line rest ih =>
    rw [List.foldl_cons]
    cases collects : isCollect line with
    | true =>
      rw [List.filter_cons_of_neg (by simp [collects]), ih, next_of_isCollect collects]
    | false =>
      rw [List.filter_cons_of_pos (by simp [collects]), List.foldl_cons, ih]

example : ((after ["cell a", "cell b", "set a 1 b", "drop b", "collect"]).answer
    "get a 1").toOption = some ["a.1 = b"] := by
  decide +kernel

end Store

end Reclaim.Console
