import Reclaim.Proofs.Heap.Effects

namespace Reclaim.RootTable

def Holds (table : RootTable) (id : RootId) (object : Ref) : Prop :=
  table.slots[id.index]? = some (.occupied (some object))

structure Sound (table : RootTable) : Prop where
  free_nodup : table.free.Nodup
  free_vacant : ∀ index ∈ table.free, table.slots[index]? = some .vacant

variable {table : RootTable} {id other : RootId} {object held : Ref}

theorem sound_empty : ({} : RootTable).Sound :=
  ⟨.nil, nofun⟩

theorem holds_of_get (found : table.get id = some object) : table.Holds id object := by
  rw [get] at found
  split at found
  · rename_i slot occupied
    rw [found] at occupied
    exact occupied
  · cases found

theorem Holds.get (holds : table.Holds id object) : table.get id = some object := by
  rw [RootTable.get, holds]

theorem Holds.mem_objects (holds : table.Holds id object) : object ∈ table.objects := by
  rw [RootTable.mem_objects]
  exact Array.mem_toList_iff.mpr (Array.mem_of_getElem? holds)

theorem Holds.isAllocated (holds : table.Holds id object) : table.isAllocated id = true := by
  rw [RootTable.isAllocated, holds]

theorem Holds.index_lt (holds : table.Holds id object) : id.index < table.slots.size := by
  by_contra outside
  rw [Holds, Array.getElem?_eq_none (Nat.not_lt.mp outside)] at holds
  cases holds

theorem Holds.not_free (holds : table.Holds id object) (sound : table.Sound) :
    id.index ∉ table.free := by
  intro member
  have vacant := sound.free_vacant _ member
  rw [holds] at vacant
  cases vacant

theorem Holds.of_ne {slot : RootSlot} {index : Nat} {free : List Nat}
    (holds : table.Holds id object) (different : id.index ≠ index) :
    Holds { slots := table.slots.setIfInBounds index slot, free } id object := by
  rw [Holds, Array.getElem?_setIfInBounds_ne different.symm]
  exact holds

theorem sound_of_set (sound : table.Sound) {index : Nat} (unlisted : index ∉ table.free)
    (slot : RootSlot) : Sound { table with slots := table.slots.setIfInBounds index slot } where
  free_nodup := sound.free_nodup
  free_vacant := by
    intro listed member
    have different : index ≠ listed := fun same => unlisted (same ▸ member)
    rw [Array.getElem?_setIfInBounds_ne different]
    exact sound.free_vacant listed member

structure Added (before after : RootTable) (id : RootId) (object : Ref) : Prop where
  sound : after.Sound
  holds : after.Holds id object
  kept : ∀ other held, before.Holds other held → other ≠ id ∧ after.Holds other held

theorem added_of_add (sound : table.Sound) (object : Ref) :
    table.Added (table.add (some object)).2 (table.add (some object)).1 object := by
  rw [add]
  cases free : table.free with
  | nil =>
    exact {
      sound := ⟨.nil, fun _ member => absurd member List.not_mem_nil⟩
      holds := Array.getElem?_push_size
      kept := by
        intro other held holds
        have inside := holds.index_lt
        refine ⟨?_, ?_⟩
        · rintro rfl
          exact absurd inside (Nat.lt_irrefl _)
        · rw [Holds, Array.getElem?_push_lt inside]
          exact (Array.getElem?_eq_getElem inside).symm.trans holds }
  | cons index rest =>
    obtain ⟨unlisted, once⟩ := List.nodup_cons.mp (free ▸ sound.free_nodup)
    have vacant := sound.free_vacant index (free ▸ List.mem_cons_self)
    have inside : index < table.slots.size := by
      by_contra outside
      rw [Array.getElem?_eq_none (Nat.not_lt.mp outside)] at vacant
      cases vacant
    exact {
      sound := ⟨once, by
        intro listed member
        have different : index ≠ listed := fun same => unlisted (same ▸ member)
        rw [Array.getElem?_setIfInBounds_ne different]
        exact sound.free_vacant listed (free ▸ List.mem_cons_of_mem _ member)⟩
      holds := Array.getElem?_setIfInBounds_self_of_lt inside
      kept := by
        intro other held holds
        have different : other.index ≠ index := by
          intro same
          exact holds.not_free sound (by rw [same, free]; exact List.mem_cons_self)
        exact ⟨fun same => different (congrArg RootId.index same), holds.of_ne different⟩ }

theorem exists_set (sound : table.Sound) (holds : table.Holds id held) (object : Ref) :
    ∃ after, table.set id (some object) = .ok after ∧ after.Sound ∧ after.Holds id object ∧
      ∀ other held, other ≠ id → table.Holds other held → after.Holds other held := by
  refine ⟨_, if_pos holds.isAllocated, sound_of_set sound (holds.not_free sound) _,
    Array.getElem?_setIfInBounds_self_of_lt holds.index_lt, ?_⟩
  intro other held different kept
  exact kept.of_ne fun same => different (congrArg RootId.mk same)

theorem exists_remove (sound : table.Sound) (holds : table.Holds id held) :
    ∃ after, table.remove id = .ok after ∧ after.Sound ∧
      ∀ other held, other ≠ id → table.Holds other held → after.Holds other held := by
  have unlisted := holds.not_free sound
  refine ⟨_, if_pos holds.isAllocated, ⟨List.nodup_cons.mpr ⟨unlisted, sound.free_nodup⟩, ?_⟩, ?_⟩
  · intro listed member
    rcases List.mem_cons.mp member with rfl | old
    · exact Array.getElem?_setIfInBounds_self_of_lt holds.index_lt
    · exact (sound_of_set sound unlisted .vacant).free_vacant listed old
  · intro other held different kept
    exact kept.of_ne fun same => different (congrArg RootId.mk same)

end Reclaim.RootTable
