import Reclaim.Proofs.Console.Sessions
import Reclaim.Proofs.Console.Store

namespace Reclaim.Console

namespace Store

variable {store : Store} {item : Item} {object other slot : Nat} {target : Option Nat}

theorem item_add_self : (store.add item).item store.items.size = item := by
  simp [Store.item, add]

theorem item_add_of_lt (inside : object < store.items.size) :
    (store.add item).item object = store.item object := by
  simp [Store.item, add, Array.getElem?_push_lt inside, inside]

theorem size_add : (store.add item).items.size = store.items.size + 1 :=
  Array.size_push ..

theorem item_put_self (inside : object < store.items.size) :
    (store.put object slot target).item object =
      { store.item object with slots := (store.item object).slots.setIfInBounds slot target } := by
  simp [Store.item, put, inside, Array.getElem_modify]

theorem item_put_of_ne (different : object ≠ other) :
    (store.put object slot target).item other = store.item other := by
  simp [Store.item, put, Array.getElem?_modify, different]

end Store

variable {μ : Type}

/-- An object looks as the store has it. A weak slot may be empty instead. -/
structure Depicts (place : Ref → Nat) (item : Item) (heap : Heap (Reports μ)) (object : Ref) :
    Prop where
  label : heap.host.labels[object]? = some item.name
  given : givenName heap.journal.toList object = some item.name
  kind : Kind.of heap object = item.kind
  slots : (Kind.contents heap object).map (Option.map place) = item.slots.toList ∨
    item.kind = .weak ∧ Kind.contents heap object = [none] ∧ item.slots.size = 1

/-- Some objects of a session stand for objects of a store, and names are bound alike. -/
structure Mirrors (place : Ref → Nat) (store : Store) (session : Session μ) (objects : List Ref) :
    Prop where
  inside : ∀ o ∈ objects, place o < store.items.size
  distinct : ∀ o ∈ objects, ∀ other ∈ objects, place o = place other → o = other
  depicts : ∀ o ∈ objects, Depicts place (store.item (place o)) session.heap o
  bound : ∀ name, store.bindings[name]? = (session.lookup name).map place

structure Lasts (before after : Heap (Reports μ)) (object : Ref) : Prop where
  kept : Kind.Kept before after object
  label : after.host.labels[object]? = before.host.labels[object]?
  given : givenName after.journal.toList object = givenName before.journal.toList object

section Depicts

variable {place : Ref → Nat} {item : Item} {before after : Heap (Reports μ)} {object : Ref}

theorem Depicts.length_contents (h : Depicts place item before object) :
    (Kind.contents before object).length = item.slots.size := by
  rcases h.slots with same | ⟨_, emptied, one⟩
  · rw [← Array.length_toList, ← same, List.length_map]
  · rw [emptied, one]
    rfl

theorem Depicts.of_lasts (h : Depicts place item before object)
    (lasts : Lasts before after object) : Depicts place item after object where
  label := lasts.label.trans h.label
  given := lasts.given.trans h.given
  kind := lasts.kept.kind.trans h.kind
  slots := by
    rcases lasts.kept.contents with same | ⟨weak, emptied⟩
    · rw [same]
      exact h.slots
    · have length := h.length_contents
      rcases h.slots with same | ⟨_, _, one⟩
      · have one : item.slots.size = 1 := by
          rw [← length, Kind.contents, Kind.length_held, weak]
          rfl
        exact .inr ⟨h.kind ▸ weak, emptied, one⟩
      · exact .inr ⟨h.kind ▸ weak, emptied, one⟩

theorem Depicts.getElem?_slots (h : Depicts place item before object) {slot : Nat}
    {held : Option Ref} (found : (Kind.contents before object)[slot]? = some held) :
    item.slots.getD slot none = held.map place ∨ item.kind = .weak ∧ held = none := by
  rcases h.slots with same | ⟨weak, emptied, _⟩
  · left
    have shown : item.slots.toList[slot]? = some (held.map place) := by
      rw [← same, List.getElem?_map, found]
      rfl
    rw [Array.getElem?_toList] at shown
    simp [shown]
  · right
    rw [emptied] at found
    exact ⟨weak, (List.mem_singleton.mp (List.mem_of_getElem? found))⟩

theorem Depicts.with_place (h : Depicts place item before object) {place' : Ref → Nat}
    (same : (Kind.contents before object).map (Option.map place') =
      (Kind.contents before object).map (Option.map place)) :
    Depicts place' item before object :=
  ⟨h.label, h.given, h.kind, same ▸ h.slots⟩

end Depicts

theorem Lasts.trans {middle : Heap (Reports μ)} (first : Lasts before middle object)
    (second : Lasts middle after object) : Lasts before after object :=
  ⟨first.kept.trans second.kept, second.label.trans first.label, second.given.trans first.given⟩

theorem lasts_of_event {event : Event} (kept : Kind.Kept before after object)
    (labels : after.host.labels = before.host.labels)
    (journal : after.journal.toList = before.journal.toList ++ [event])
    (unnamed : event.naming? object = none) : Lasts before after object where
  kept := kept
  label := by rw [labels]
  given := by
    rw [journal]
    apply givenName_append
    intro other member
    rw [List.mem_singleton.mp member]
    exact unnamed

theorem lasts_of_labelled {session : Session μ} {name : String} {object o : Ref} {roots : RootTable}
    {bindings : Std.TreeMap String RootId} (other : object ≠ o) :
    Lasts session.heap (session.labelled name object roots bindings).heap o where
  kept := Kind.kept_of_memory rfl
  label := by
    have inserted : (session.heap.host.labels.insert object name)[o]? =
        session.heap.host.labels[o]? := by
      rw [Std.TreeMap.getElem?_insert]
      simp [other]
    exact inserted
  given := by
    have pushed : (session.labelled name object roots bindings).heap.journal.toList =
        session.heap.journal.toList ++ [.logged (.bound name object)] := Array.toList_push
    rw [pushed]
    apply givenName_append
    intro event member
    rw [List.mem_singleton.mp member]
    exact if_neg other

section Allocations

variable [RawMemory μ] {first : μ} {before after : Heap (Reports μ)} {object o : Ref}
  {request : Request} {cost : Word}

theorem Collected.lasts {events : List Event} (h : Collected first before after events) (o : Ref) :
    Lasts before after o where
  kept := h.kept o
  label := by rw [h.labels]
  given := by
    rw [h.told.journal]
    exact givenName_append fun event member => h.unnamed event member o

theorem lasts_of_refused {error : ChunkError} {host : Reports μ}
    (answered : RawMemory.request cost before.host = (.error error, host)) (o : Ref) :
    Lasts before ({ before with host }.record (.requested cost (.error error))) o :=
  lasts_of_event (Kind.kept_of_memory rfl) (by rw [Reports.eq_of_request answered]; rfl)
    Array.toList_push rfl

theorem lasts_of_granted (h : before.Granted after request cost object) (other : object ≠ o) :
    Lasts before after o :=
  lasts_of_event (Kind.kept_of_granted h other) (by rw [Reports.eq_of_request h.answer]) h.journal
    rfl

end Allocations

theorem toList_eq_of_getElem? {α : Type} {left right : Std.TreeMap String α}
    (same : ∀ name : String, left[name]? = right[name]?) : left.toList = right.toList := by
  have nodup (map : Std.TreeMap String α) : map.toList.Nodup := by
    refine (Std.TreeMap.ordered_keys_toList (t := map)).imp fun {a b} less equal => ?_
    rw [equal] at less
    cases less.symm.trans Std.ReflCmp.compare_self
  refine (Std.TreeMap.Equiv.of_toList_perm ?_).toList_eq
  rw [List.perm_ext_iff_of_nodup (nodup left) (nodup right)]
  rintro ⟨name, value⟩
  rw [Std.TreeMap.mem_toList_iff_getElem?_eq_some, Std.TreeMap.mem_toList_iff_getElem?_eq_some,
    same]

namespace Mirrors

variable {place : Ref → Nat} {store : Store} {session after : Session μ} {objects : List Ref}

theorem of_lasts (h : Mirrors place store session objects) {fewer : List Ref}
    (sub : ∀ o ∈ fewer, o ∈ objects) (lasts : ∀ o ∈ fewer, Lasts session.heap after.heap o)
    (lookup : ∀ name, after.lookup name = session.lookup name) :
    Mirrors place store after fewer where
  inside := fun o member => h.inside o (sub o member)
  distinct := fun o member other member' => h.distinct o (sub o member) other (sub other member')
  depicts := fun o member => (h.depicts o (sub o member)).of_lasts (lasts o member)
  bound := fun name => (h.bound name).trans (by rw [lookup])

theorem lookup_eq_some (h : Mirrors place store session objects) {name : String} {object : Ref}
    (found : session.lookup name = some object) : store.bindings[name]? = some (place object) := by
  rw [h.bound, found]
  rfl

theorem describe_eq (h : Mirrors place store session objects) {target : Option Ref}
    (inside : ∀ o, target = some o → o ∈ objects) :
    session.describe target = store.describe (target.map place) := by
  cases target with
  | none => rfl
  | some o =>
    have label := (h.depicts o (inside o rfl)).label
    rw [Session.describe, Reports.nameOf, Std.TreeMap.getD_eq_getD_getElem?, label]
    rfl

section Closed

variable (closed : ∀ o ∈ objects, ∀ target, some target ∈ Kind.contents session.heap o →
  target ∈ objects) (rooted : ∀ name o, session.lookup name = some o → o ∈ objects)

include closed in
theorem map_contents {place' : Ref → Nat} (same : ∀ o ∈ objects, place' o = place o) {o : Ref}
    (member : o ∈ objects) : (Kind.contents session.heap o).map (Option.map place') =
      (Kind.contents session.heap o).map (Option.map place) := by
  apply List.map_congr_left
  intro held listed
  cases held with
  | none => rfl
  | some target => exact congrArg some (same target (closed o member target listed))

include closed rooted in
theorem add (h : Mirrors place store session objects) {object : Ref} {item : Item}
    {roots : RootTable} {bindings : Std.TreeMap String RootId} (fresh : object ∉ objects)
    (kind : Kind.of session.heap object = item.kind)
    (slots : (Kind.contents session.heap object).map (Option.map place) = item.slots.toList)
    (targets : ∀ target, some target ∈ Kind.contents session.heap object → target ∈ objects)
    (lookup : ∀ other, (session.labelled item.name object roots bindings).lookup other =
      if item.name = other then some object else session.lookup other) :
    Mirrors (Function.update place object store.items.size) (store.add item)
      (session.labelled item.name object roots bindings) (objects ++ [object]) := by
  -- the address may have been that of an object that is gone, so its place is set anew
  have apart {o : Ref} (member : o ∈ objects) : object ≠ o := fun same => fresh (same ▸ member)
  have old {o : Ref} (member : o ∈ objects) :
      Function.update place object store.items.size o = place o :=
    Function.update_of_ne (apart member).symm _ _
  have new : Function.update place object store.items.size object = store.items.size :=
    Function.update_self ..
  have cases_mem {o : Ref} (member : o ∈ objects ++ [object]) : o ∈ objects ∨ o = object := by
    rwa [List.mem_append, List.mem_singleton] at member
  exact {
    inside := by
      intro o member
      rw [Store.size_add]
      rcases cases_mem member with listed | rfl
      · rw [old listed]
        exact Nat.lt_succ_of_lt (h.inside o listed)
      · rw [new]
        exact Nat.lt_succ_self _
    distinct := by
      intro o member other member' same
      rcases cases_mem member with listed | rfl <;> rcases cases_mem member' with listed' | rfl
      · rw [old listed, old listed'] at same
        exact h.distinct o listed other listed' same
      · rw [old listed, new] at same
        exact absurd same (Nat.ne_of_lt (h.inside o listed))
      · rw [old listed', new] at same
        exact absurd same.symm (Nat.ne_of_lt (h.inside other listed'))
      · rfl
    depicts := by
      intro o member
      rcases cases_mem member with listed | rfl
      · rw [old listed, Store.item_add_of_lt (h.inside o listed)]
        exact ((h.depicts o listed).of_lasts (lasts_of_labelled (apart listed))).with_place
          (map_contents closed (fun o member => old member) listed)
      · rw [new, Store.item_add_self]
        exact {
          label := Std.TreeMap.getElem?_insert_self
          given := by
            refine Eq.trans (congrArg (givenName · o) Array.toList_push) ?_
            exact givenName_bound ..
          kind := kind
          slots := by
            left
            rw [← slots]
            apply List.map_congr_left
            intro held listed
            cases held with
            | none => rfl
            | some target => exact congrArg some (old (targets target listed)) }
    bound := by
      intro name
      rw [lookup, Store.add, Std.TreeMap.getElem?_insert]
      by_cases same : item.name = name
      · simp [same]
      · rw [if_neg same, if_neg (by simpa using same), h.bound]
        cases found : session.lookup name with
        | none => rfl
        | some o => exact congrArg some (old (rooted name o found)).symm }

end Closed

theorem put (h : Mirrors place store session objects) {object : Ref} (member : object ∈ objects)
    {slot offset : Nat} {target : Option Ref} {heap : Heap (Reports μ)}
    (queues : Array (Ref → Program (Reports μ)))
    (found : ((Kind.of session.heap object).offsets
      (Kind.lengthOf session.heap object))[slot]? = some offset)
    (wrote : session.heap.Wrote heap object offset (Ref.slotWord target).toBytes) :
    Mirrors place (store.put (place object) slot (target.map place))
      { session with collector := ⟨heap, queues⟩ } objects where
  inside := by
    intro o member
    rw [Store.put, Array.size_modify]
    exact h.inside o member
  distinct := h.distinct
  depicts := by
    intro o listed
    by_cases same : object = o
    · subst same
      obtain ⟨kind, contents⟩ := Kind.contents_of_wrote wrote found
      have before := h.depicts object member
      have length := before.length_contents
      rw [Store.item_put_self (h.inside object member)]
      exact {
        label := by
          change heap.host.labels[object]? = _
          rw [wrote.after_eq]
          exact before.label
        given := by
          change givenName heap.journal.toList object = _
          rw [wrote.after_eq]
          exact before.given
        kind := kind.trans before.kind
        slots := by
          left
          change (Kind.contents heap object).map (Option.map place) = _
          rw [contents, List.map_set, Array.toList_setIfInBounds]
          rcases before.slots with same | ⟨_, emptied, one⟩
          · rw [same]
          · -- there is only one slot to write to, whatever was in it
            have inside : slot < (Kind.contents session.heap object).length := by
              rw [Kind.contents, Kind.length_held]
              exact (List.getElem?_eq_some_iff.mp found).1
            rw [emptied] at inside ⊢
            obtain ⟨only, alone⟩ := List.length_eq_one_iff.mp (Array.length_toList.trans one)
            rw [alone, Nat.lt_one_iff.mp inside]
            rfl }
    · have apart : place object ≠ place o := fun alike => same (h.distinct _ member _ listed alike)
      rw [Store.item_put_of_ne apart]
      have lasts : Lasts session.heap heap o :=
        ⟨Kind.kept_of_wrote wrote same, by rw [wrote.after_eq], by rw [wrote.after_eq]⟩
      exact (h.depicts o listed).of_lasts lasts
  bound := by
    intro name
    have roots : heap.roots = session.heap.roots := by rw [wrote.after_eq]
    rw [Session.lookup_of_roots roots]
    exact h.bound name

theorem drop [RawMemory μ] (h : Mirrors place store session objects) {name : String}
    {roots : RootTable} (lookup : ∀ other, (session.dropped name roots).lookup other =
      if name = other then none else session.lookup other) :
    Mirrors place { store with bindings := store.bindings.erase name }
      (session.dropped name roots) objects where
  inside := h.inside
  distinct := h.distinct
  depicts := fun o member => (h.depicts o member).of_lasts ⟨Kind.kept_of_memory rfl, rfl, rfl⟩
  bound := by
    intro other
    rw [lookup, Std.TreeMap.getElem?_erase]
    by_cases same : name = other
    · simp [same]
    · rw [if_neg same, if_neg (by simpa using same), h.bound]

theorem rootLines_eq (h : Mirrors place store session objects)
    (rooted : ∀ o ∈ session.heap.roots.objects, o ∈ objects) :
    session.rootLines = store.bindings.toList.map fun (name, object) =>
      s!"{name}: {(store.item object).kind.name}" := by
  have listed : store.bindings.toList = (session.bindings.filterMap fun _ root =>
      (session.heap.roots.get root).map place).toList := by
    refine toList_eq_of_getElem? fun name => ?_
    rw [h.bound, Std.TreeMap.getElem?_filterMap', Session.lookup, Option.map_bind]
    rfl
  rw [listed, Std.TreeMap.toList_filterMap, List.map_filterMap, Session.rootLines]
  refine List.filterMap_congr ?_
  rintro ⟨name, root⟩ _
  cases held : session.heap.roots.get root with
  | none => simp only [held, Option.map_none]
  | some o =>
    have member := rooted o (RootTable.holds_of_get held).mem_objects
    simp only [held, Option.map_some, (h.depicts o member).kind]

end Mirrors

end Reclaim.Console
