import Mathlib.Data.List.Nodup
import Reclaim.Heap.Journal

namespace Reclaim

def Event.grant? : Event → Option (Ref × Word)
  | .requested size (.ok object) => some (object, size)
  | _ => none

def Event.release? : Event → Option (Ref × Word)
  | .released object size => some (object, size)
  | _ => none

def grants (events : List Event) : List (Ref × Word) :=
  events.filterMap Event.grant?

def releases (events : List Event) : List (Ref × Word) :=
  events.filterMap Event.release?

/-- Blocks that are held, in the order in which they were granted, and releases of what was not held
    at that size when it was released. -/
structure Ledger where
  held : List (Ref × Word) := []
  strays : List (Ref × Word) := []

namespace Ledger

def enter (ledger : Ledger) : Event → Ledger
  | .requested size (.ok object) => { ledger with held := ledger.held ++ [(object, size)] }
  | .released object size =>
    if (object, size) ∈ ledger.held then
      { ledger with held := ledger.held.erase (object, size) }
    else { ledger with strays := ledger.strays ++ [(object, size)] }
  | _ => ledger

def enterAll (ledger : Ledger) (events : List Event) : Ledger :=
  events.foldl enter ledger

def of (events : List Event) : Ledger :=
  enterAll {} events

variable {ledger : Ledger} {events : List Event}

theorem enterAll_append (ledger : Ledger) (first second : List Event) :
    ledger.enterAll (first ++ second) = (ledger.enterAll first).enterAll second :=
  List.foldl_append

theorem of_append (first second : List Event) :
    of (first ++ second) = (of first).enterAll second :=
  enterAll_append {} first second

theorem enter_of_quiet {event : Event} (grant : event.grant? = none)
    (release : event.release? = none) : ledger.enter event = ledger := by
  cases event with
  | requested size answer =>
    cases answer with
    | ok object => cases grant
    | error error => rfl
  | released object size => cases release
  | logged record => rfl

theorem enterAll_of_quiet (grant : grants events = []) (release : releases events = []) :
    ledger.enterAll events = ledger := by
  rw [grants, List.filterMap_eq_nil_iff] at grant
  rw [releases, List.filterMap_eq_nil_iff] at release
  induction events with
  | nil => rfl
  | cons event rest ih =>
    have quiet : ledger.enter event = ledger :=
      enter_of_quiet (grant event List.mem_cons_self) (release event List.mem_cons_self)
    rw [enterAll, List.foldl_cons, quiet]
    exact ih (fun e member => grant e (List.mem_cons_of_mem _ member))
      (fun e member => release e (List.mem_cons_of_mem _ member))

theorem filter_erase {held : List (Ref × Word)} (once : held.Nodup) (block : Ref × Word)
    (rest : List (Ref × Word)) :
    (held.erase block).filter (· ∉ rest) = held.filter (· ∉ block :: rest) := by
  rw [once.erase_eq_filter, List.filter_filter]
  apply List.filter_congr
  intro other _
  by_cases same : other = block <;> simp [same]

theorem enterAll_released (held : ledger.held.Nodup) (blocks : List (Ref × Word))
    (nodup : blocks.Nodup) (sub : ∀ block ∈ blocks, block ∈ ledger.held) :
    ledger.enterAll (blocks.map fun block => .released block.1 block.2) =
      { ledger with held := ledger.held.filter (· ∉ blocks) } := by
  induction blocks generalizing ledger with
  | nil => simp [enterAll]
  | cons block rest ih =>
    obtain ⟨fresh, nodup⟩ := List.nodup_cons.mp nodup
    have first : ledger.enter (.released block.1 block.2) =
        { ledger with held := ledger.held.erase block } :=
      if_pos (sub block List.mem_cons_self)
    rw [List.map_cons, enterAll, List.foldl_cons, first]
    refine (ih (held.erase block) nodup ?_).trans ?_
    · intro other member
      have different : other ≠ block := fun same => fresh (same ▸ member)
      exact (List.mem_erase_of_ne different).mpr (sub other (List.mem_cons_of_mem _ member))
    · rw [filter_erase held]

theorem count_enterAll (ledger : Ledger) (events : List Event) (block : Ref × Word) :
    (ledger.enterAll events).held.count block + (releases events).count block +
        ledger.strays.count block =
      ledger.held.count block + (grants events).count block +
        (ledger.enterAll events).strays.count block := by
  induction events generalizing ledger with
  | nil =>
    simp only [enterAll, List.foldl_nil, releases, grants, List.filterMap_nil, List.count_nil]
  | cons event rest ih =>
    have later := ih (ledger.enter event)
    rw [enterAll, List.foldl_cons]
    change _ = _ at later
    cases event with
    | logged record => exact later
    | requested size answer =>
      cases answer with
      | error error => exact later
      | ok object =>
        simp only [enter, List.count_append] at later
        simp only [releases, grants, List.filterMap_cons, Event.release?, Event.grant?,
          List.count_cons, List.count_nil, enter] at later ⊢
        simp only [enterAll] at later
        omega
    | released object size =>
      -- a release takes a held block off, or is a stray; either way it is entered once
      by_cases member : (object, size) ∈ ledger.held
      · have entered : ledger.enter (.released object size) =
            { ledger with held := ledger.held.erase (object, size) } := if_pos member
        have positive : 0 < ledger.held.count (object, size) := List.count_pos_iff.mpr member
        rw [entered] at later ⊢
        simp only [releases, grants, List.filterMap_cons, Event.release?, Event.grant?,
          List.count_cons, List.count_erase, enterAll] at later ⊢
        by_cases same : (object, size) = block
        · subst same
          simp only [beq_self_eq_true, if_true] at later ⊢
          omega
        · have different : ((object, size) == block) = false := by simpa using same
          simp only [different] at later ⊢
          exact later
      · have entered : ledger.enter (.released object size) =
            { ledger with strays := ledger.strays ++ [(object, size)] } := if_neg member
        rw [entered] at later ⊢
        simp only [releases, grants, List.filterMap_cons, Event.release?, Event.grant?,
          List.count_cons, List.count_append, List.count_nil, enterAll] at later ⊢
        omega

end Ledger

end Reclaim
