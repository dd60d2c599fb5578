import Reclaim.Heap.Basic

namespace Reclaim

structure Walk where
  memory : Memory
  marked : List Ref := []

namespace Walk

def isUnmarked (memory : Memory) (address : Nat) : Bool :=
  match Ref.ofWord? (UInt64.ofNat address) with
  | some object => ! memory.isSurviving object
  | none => false

def unmarkedIn (memory : Memory) (addresses : List Nat) : Nat :=
  addresses.countP (isUnmarked memory)

theorem isUnmarked_mark {memory : Memory} {object : Ref} {address : Nat}
    (h : isUnmarked (memory.addFlag object .surviving) address = true) :
    isUnmarked memory address = true := by
  unfold isUnmarked at h ⊢
  split at h
  · rename_i other _
    by_cases same : object = other
    · subst same
      simp [Memory.isSurviving_addFlag_self] at h
    · simpa [Memory.isSurviving, Memory.flags, Memory.header_addFlag_of_ne _ _ same] using h
  · cases h

theorem isUnmarked_address (memory : Memory) (object : Ref) :
    isUnmarked memory object.word.toNat = ! memory.isSurviving object := by
  simp [isUnmarked, Ref.ofWord?, object.word_ne_zero]

theorem unmarkedIn_mark_lt {memory : Memory} {object : Ref} {addresses : List Nat}
    (h : memory.isSurviving object = false) (member : object.word.toNat ∈ addresses) :
    unmarkedIn (memory.addFlag object .surviving) addresses < unmarkedIn memory addresses := by
  obtain ⟨before, after, rfl⟩ := List.append_of_mem member
  have mono : ∀ part : List Nat,
      unmarkedIn (memory.addFlag object .surviving) part ≤ unmarkedIn memory part := fun part =>
    List.countP_mono_left fun _ _ => isUnmarked_mark
  have left := mono before
  have right := mono after
  simp only [unmarkedIn, List.countP_append, List.countP_cons, isUnmarked_address, h,
    Memory.isSurviving_addFlag_self] at left right ⊢
  simp
  omega

def unmarked (memory : Memory) : Nat :=
  unmarkedIn memory (List.range UInt64.size)

theorem unmarked_mark_lt {memory : Memory} {object : Ref}
    (h : memory.isSurviving object = false) :
    unmarked (memory.addFlag object .surviving) < unmarked memory :=
  unmarkedIn_mark_lt h (List.mem_range.mpr object.word.toNat_lt)

def visit (walk : Walk) (object : Ref) : Walk :=
  { memory := walk.memory.addFlag object .surviving, marked := object :: walk.marked }

/-- Visits at most `count` objects. The next one is the first on the stack that is not marked; its
    references are put on the stack, the last one on top. -/
def runFor (types : TypeTable) : Nat → Walk → List Ref → EStateM.Result Fault Walk Unit
  | 0, walk, _ => .ok () walk
  | count + 1, walk, stack =>
    match stack.dropWhile walk.memory.isSurviving with
    | [] => .ok () walk
    | object :: stack =>
      let walk := walk.visit object
      match types.children walk.memory object with
      | .error fault => .error fault walk
      | .ok children => runFor types count walk (children.reverse ++ stack)

/-- Every visit marks an object at one more address, so a walk that may make as many visits as there
    are addresses is never cut short. -/
def run (types : TypeTable) (walk : Walk) (stack : List Ref) : EStateM.Result Fault Walk Unit :=
  runFor types UInt64.size walk stack

theorem dropWhile_isSurviving_eq_nil {memory : Memory} (h : unmarked memory = 0)
    (stack : List Ref) : stack.dropWhile memory.isSurviving = [] := by
  induction stack with
  | nil => rfl
  | cons object rest ih =>
    have marked := List.countP_eq_zero.mp h object.word.toNat
      (List.mem_range.mpr object.word.toNat_lt)
    have surviving : memory.isSurviving object = true := by
      simpa [isUnmarked_address] using marked
    rw [List.dropWhile_cons_of_pos surviving, ih]

theorem runFor_eq_runFor {types : TypeTable} {m n : Nat} {walk : Walk} {stack : List Ref}
    (hm : unmarked walk.memory ≤ m) (hn : unmarked walk.memory ≤ n) :
    runFor types m walk stack = runFor types n walk stack := by
  induction m generalizing n walk stack with
  | zero =>
    cases n with
    | zero => rfl
    | succ n => rw [runFor, runFor, dropWhile_isSurviving_eq_nil (Nat.le_zero.mp hm)]
  | succ m ih =>
    cases n with
    | zero => rw [runFor, runFor, dropWhile_isSurviving_eq_nil (Nat.le_zero.mp hn)]
    | succ n =>
      rw [runFor, runFor]
      split
      · rfl
      · rename_i object rest h
        have fresh : walk.memory.isSurviving object = false := by
          simpa [h] using List.head?_dropWhile_not walk.memory.isSurviving stack
        have less : unmarked (walk.visit object).memory < unmarked walk.memory :=
          unmarked_mark_lt fresh
        dsimp only
        split
        · rfl
        · exact ih (by omega) (by omega)

theorem unmarked_le (memory : Memory) : unmarked memory ≤ UInt64.size := by
  have h := List.countP_le_length (p := isUnmarked memory)
    (l := List.range UInt64.size)
  rwa [List.length_range] at h

theorem runFor_cons_of_surviving {types : TypeTable} {count : Nat} {walk : Walk} {object : Ref}
    {stack : List Ref} (h : walk.memory.isSurviving object = true) :
    runFor types count walk (object :: stack) = runFor types count walk stack := by
  cases count with
  | zero => rfl
  | succ count => rw [runFor, runFor, List.dropWhile_cons_of_pos h]

theorem runFor_succ_cons {types : TypeTable} {count : Nat} {walk : Walk} {object : Ref}
    {stack : List Ref} (h : walk.memory.isSurviving object = false) :
    runFor types (count + 1) walk (object :: stack) =
      match types.children (walk.visit object).memory object with
      | .error fault => .error fault (walk.visit object)
      | .ok children => runFor types count (walk.visit object) (children.reverse ++ stack) := by
  rw [runFor, List.dropWhile_cons_of_neg (by simp [h])]

theorem run_nil (types : TypeTable) (walk : Walk) : run types walk [] = .ok () walk := rfl

theorem run_cons_of_surviving {types : TypeTable} {walk : Walk} {object : Ref} {stack : List Ref}
    (h : walk.memory.isSurviving object = true) :
    run types walk (object :: stack) = run types walk stack :=
  runFor_cons_of_surviving h

theorem run_cons_of_not_surviving {types : TypeTable} {walk : Walk} {object : Ref}
    {stack : List Ref} (h : walk.memory.isSurviving object = false) :
    run types walk (object :: stack) =
      match types.children (walk.visit object).memory object with
      | .error fault => .error fault (walk.visit object)
      | .ok children => run types (walk.visit object) (children.reverse ++ stack) := by
  have less : unmarked (walk.visit object).memory < unmarked walk.memory := unmarked_mark_lt h
  have bound := unmarked_le walk.memory
  have enough : unmarked (walk.visit object).memory ≤ UInt64.size := unmarked_le _
  rw [run, show UInt64.size = UInt64.size - 1 + 1 from rfl, runFor_succ_cons h]
  split
  · rfl
  · exact runFor_eq_runFor (by omega) enough

end Walk

variable {σ : Type}

/-- Marks everything reachable from a list of objects, the last of which is visited first. Answers
    with the objects that were not marked before. -/
def Heap.mark (objects : List Ref) : HeapM σ (List Ref) := fun heap =>
  match Walk.run heap.types { memory := heap.memory } objects.reverse with
  | .ok () walk => .ok walk.marked.reverse { heap with memory := walk.memory }
  | .error fault walk => .error fault { heap with memory := walk.memory }

end Reclaim
