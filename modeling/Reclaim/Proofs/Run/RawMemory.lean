import Reclaim.Proofs.Heap.Requests
import Reclaim.Proofs.Run.Calls
import Reclaim.Proofs.Run.References

namespace Reclaim

variable {σ : Type}

section Faults

namespace Heap

variable {α : Type} {heap after : Heap σ} {fault : Fault}

theorem setRoot_eq_error {id : RootId} {target : Option Ref}
    (failed : setRoot id target heap = .error fault after) : after = heap := by
  rw [setRoot, bind_eq_error] at failed
  rcases failed with failed | ⟨roots, _, _, failed⟩
  · exact (check_eq_error.mp failed).2
  · cases failed

theorem removeRoot_eq_error {id : RootId}
    (failed : removeRoot id heap = .error fault after) : after = heap := by
  rw [removeRoot, bind_eq_error] at failed
  rcases failed with failed | ⟨roots, _, _, failed⟩
  · exact (check_eq_error.mp failed).2
  · cases failed

theorem writeWord_eq_error {object : Ref} {offset word : Word}
    (failed : writeWord object offset word heap = .error fault after) : after = heap := by
  rw [writeWord, bind_eq_error] at failed
  rcases failed with failed | ⟨_, _, _, failed⟩
  · exact (check_eq_error.mp failed).2
  · cases failed

theorem writePayload_eq_error {object : Ref} {offset : Word} {bytes : List UInt8}
    (failed : writePayload object offset bytes heap = .error fault after) : after = heap := by
  rw [writePayload, bind_eq_error] at failed
  rcases failed with failed | ⟨part, _, _, failed⟩
  · exact (check_eq_error.mp failed).2
  · cases failed

variable [RawMemory σ]

theorem reset_eq_error
    (sized : ∀ o ∈ heap.live, ∃ cost, heap.types.allocationCost heap.memory o = .ok cost)
    (failed : reset heap = .error fault after) : after = heap := by
  rw [reset, get_bind] at failed
  cases collecting : heap.collecting with
  | true =>
    simp only [collecting] at failed
    cases failed
    rfl
  | false =>
    simp only [collecting, Bool.false_eq_true, if_false] at failed
    have ended := (bind_of_ok (releaseAll_eq_ok heap sized)).symm.trans failed
    cases ended

omit [RawMemory σ] in
theorem enter_eq_error {request : Request} {cost : Word} {object : Ref}
    (failed : enter request cost object heap = .error fault after) :
    UInt64.size ≤ heap.heapSize.toNat + cost.toNat := by
  rw [enter] at failed
  cases external : request.isExternal with
  | true =>
    simp only [external, if_true] at failed
    cases failed
  | false =>
    simp only [external, Bool.false_eq_true, if_false, modify_bind, bind_eq_error,
      check_eq_error] at failed
    rcases failed with ⟨sum, _⟩ | ⟨_, _, _, failed⟩
    · rw [Word.add] at sum
      cases total : Word.add? heap.heapSize cost with
      | some size =>
        rw [total] at sum
        cases sum
      | none => exact Word.add?_eq_none.mp total
    · cases failed

theorem allocateNow_eq_error {request : Request} {cost : Word}
    (failed : allocateNow request cost heap = .error fault after) :
    ∃ object host, RawMemory.request cost heap.host = (.ok object, host) ∧
      UInt64.size ≤ heap.heapSize.toNat + cost.toNat := by
  rw [allocateNow, bind_eq_error] at failed
  rcases failed with failed | ⟨answered, middle, requested, failed⟩
  · cases failed
  · cases answered with
    | error error => cases failed
    | ok object =>
      obtain ⟨host, granted, rfl⟩ := request_eq_ok requested
      refine ⟨object, host, granted, ?_⟩
      rw [bind_eq_error] at failed
      rcases failed with failed | ⟨_, _, _, failed⟩
      · have size : (heap.blank cost object host).heapSize = heap.heapSize := rfl
        have full := enter_eq_error failed
        rwa [size] at full
      · cases failed

theorem allocateNow_of_refused {request : Request} {cost : Word} {error : ChunkError} {host : σ}
    (answer : RawMemory.request cost heap.host = (.error error, host)) :
    allocateNow request cost heap = .ok (.error (.allocationFailed error))
      ({ heap with host }.record (.requested cost (.error error))) := by
  have refused : Heap.request cost heap =
      .ok (.error error) ({ heap with host }.record (.requested cost (.error error))) := by
    rw [Heap.request, modifyGet_apply, answer]
  rw [allocateNow, bind_of_ok refused]
  rfl

theorem allocateNow_of_granted {request : Request} {cost : Word} {object : Ref} {host : σ}
    (answer : RawMemory.request cost heap.host = (.ok object, host))
    (room : heap.heapSize.toNat + cost.toNat < UInt64.size) :
    ∃ after, allocateNow request cost heap = .ok (.ok object) after ∧
      heap.Granted after request cost object := by
  have requested : Heap.request cost heap = .ok (.ok object) (heap.blank cost object host) := by
    rw [Heap.request, modifyGet_apply, answer]
    rfl
  cases run : allocateNow request cost heap with
  | error fault after =>
    obtain ⟨_, _, _, full⟩ := allocateNow_eq_error run
    exact absurd full (Nat.not_le.mpr room)
  | ok found after =>
    rcases allocateNow_eq_ok run with ⟨error, rfl, _⟩ | ⟨other, rfl, granted⟩
    · rw [allocateNow, bind_of_ok requested] at run
      obtain ⟨_, _, _, run⟩ := bind_eq_ok.mp run
      cases run
    · have same := granted.answer
      rw [answer] at same
      cases same
      exact ⟨after, rfl, granted⟩

end Heap

variable [RawMemory σ]

omit [RawMemory σ] in
theorem Collector.error_of_onHeap {α : Type} {action : HeapM σ α} {before after : Collector σ}
    {fault : Fault} (failed : onHeap action before = .error fault after) :
    ∃ heap, action before.heap = .error fault heap ∧ after = { before with heap } := by
  rw [onHeap] at failed
  split at failed
  · cases failed
  · rename_i failed'
    cases failed
    exact ⟨_, failed', rfl⟩

omit [RawMemory σ] in
theorem Collector.onHeap_eq_error {α : Type} {action : HeapM σ α} {before after : Collector σ}
    {fault : Fault} (h : onHeap action before = .error fault after)
    (same : ∀ heap, action before.heap = .error fault heap → heap = before.heap) :
    after = before := by
  obtain ⟨heap, failed, rfl⟩ := error_of_onHeap h
  rw [same heap failed]

theorem Collector.apply_eq_error {before after : Collector σ} {operation : Operation}
    {fault : Fault} (plain : operation.isPlain = true) (consistent : before.heap.Consistent)
    (failed : apply operation before = .error fault after) : after = before := by
  cases operation with
  | allocate request => cases plain
  | collect => cases plain
  | addRoot object =>
    have failed' : onHeap (Heap.addRoot object) before = .error fault after := failed
    exact onHeap_eq_error failed' fun heap run => nomatch run
  | setRoot id target =>
    have failed' : onHeap (Heap.setRoot id target) before = .error fault after := failed
    exact onHeap_eq_error failed' fun heap => Heap.setRoot_eq_error
  | removeRoot id =>
    have failed' : onHeap (Heap.removeRoot id) before = .error fault after := failed
    exact onHeap_eq_error failed' fun heap => Heap.removeRoot_eq_error
  | reset =>
    have failed' : onHeap Heap.reset before = .error fault after := failed
    exact onHeap_eq_error failed' fun heap => Heap.reset_eq_error consistent.sized
  | writeWord object offset word =>
    have failed' : onHeap (Heap.writeWord object offset word) before = .error fault after := failed
    exact onHeap_eq_error failed' fun heap => Heap.writeWord_eq_error
  | writeRef object offset target =>
    have failed' : onHeap (Heap.writeWord object offset (Ref.slotWord target)) before =
        .error fault after := failed
    exact onHeap_eq_error failed' fun heap => Heap.writeWord_eq_error
  | writePayload object offset bytes =>
    have failed' : onHeap (Heap.writePayload object offset bytes) before = .error fault after :=
      failed
    exact onHeap_eq_error failed' fun heap => Heap.writePayload_eq_error

/-- A run that keeps the contract gives up only where the embedder makes it, and everything is left
    as it was: no collection, no finalizer and no granted request fails. -/
theorem GivesUp.collector_eq {point : Point σ} {fault : Fault} {after : Collector σ}
    (gives_up : GivesUp point fault after) (sound : Sound point) (lawful : point.Lawful) :
    after = point.collector := by
  cases gives_up with
  | fail _ _ place history => rfl
  | operate plain failed next place history =>
    exact Collector.apply_eq_error plain sound.consistent failed
  | allocate failed next place history =>
    -- the block fits beside those that are held, so the heap size has room for its cost
    obtain ⟨object, host, granted, full⟩ := Heap.allocateNow_eq_error failed
    have room := sound.accounted.room sound.consistent (lawful object host granted)
    exact absurd full (Nat.not_le.mpr room)
  | reclaim idle failed next history =>
    obtain ⟨cycle, heap, reclaimed, _⟩ :=
      Heap.exists_reclaimed sound.consistent (lawful idle)
    rw [failed] at reclaimed
    cases reclaimed
  | call missing cycle waiting caller history => rfl

end Faults

variable [RawMemory σ]

/-- The raw memory of a heap at an operation boundary: nothing was released that was not held at
    that very size, and what is held belongs to the live objects, one block for each. -/
structure Heap.Balanced (heap : Heap σ) : Prop where
  strays : heap.ledger.strays = []
  held : (heap.ledger.held.map Prod.fst).Perm (heap.objects.toList ++ heap.external.toList)
  nodup : (heap.objects.toList ++ heap.external.toList).Nodup
  ordered : heap.objects.toList.Sublist (heap.ledger.held.map Prod.fst)

/-- Disposing of a heap succeeds and makes the calls that the journal tells of. Then every grant
    over its life has been released once, at the size of the grant, and nothing else has been
    released. -/
def Collector.Settles (collector : Collector σ) : Prop :=
  ∃ last, dispose collector = .ok () last ∧ collector.heap.Called last.heap ∧
    last.heap.live = [] ∧ last.heap.ledger = {} ∧
    (grants last.heap.journal.toList).Perm (releases last.heap.journal.toList)

omit [RawMemory σ] in
theorem Sound.balanced {point : Point σ} (sound : Sound point) :
    point.collector.heap.Balanced where
  strays := sound.accounted.strays
  held := sound.accounted.held_perm
  nodup := sound.consistent.live_nodup
  ordered := sound.accounted.objects_sublist

omit [RawMemory σ] in
theorem perm_of_settled {heap : Heap σ} (settled : heap.ledger = {}) :
    (grants heap.journal.toList).Perm (releases heap.journal.toList) := by
  rw [List.perm_iff_count]
  intro block
  -- nothing is held and nothing strays, so each block was granted as often as it was released
  have balance := Ledger.count_enterAll {} heap.journal.toList block
  have accounts : Ledger.enterAll {} heap.journal.toList = {} := settled
  rw [accounts] at balance
  simp only [List.count_nil] at balance
  omega

theorem Sound.settles {point : Point σ} (sound : Sound point) : point.collector.Settles := by
  obtain ⟨heap, run, empty, settled⟩ := sound.accounted.releaseAll sound.consistent
  cases (Heap.releaseAll_eq_ok point.collector.heap sound.consistent.sized).symm.trans run
  exact ⟨_, Collector.onHeap_of_ok run, Heap.called_releasing _ _, empty, settled,
    perm_of_settled settled⟩

/-- The journal of a run that keeps the contract is the list of the calls that the raw memory has
    got, with its answers. By them it is balanced at every operation boundary, and the accounts are
    settled when the heap is disposed of there or where the run gives up. -/
theorem Runs.raw_memory {types : TypeTable} (valid : types.Valid) (growth : Growth) (host : σ)
    (program : Program σ) {point : Point σ}
    (run : Runs Point.Lawful (.start { heap := { growth, types, host } } program) point) :
    Calling (.start { heap := { growth, types, host } } program)
        point.collector.heap.journal.toList point ∧
      point.collector.heap.Balanced ∧ point.collector.Settles ∧
      ∀ fault after, GivesUp point fault after → point.Lawful → after.Settles := by
  have start := Sound.start valid growth host program
  have sound := start.of_runs run
  refine ⟨run.calling start rfl, sound.balanced, sound.settles, ?_⟩
  intro fault after gives_up lawful
  rw [gives_up.collector_eq sound lawful]
  exact sound.settles

theorem Runs.raw_memory_tour : ∃ point : Point Shelves,
    let heap := point.collector.heap
    (heap.stats.collections = 3 ∧ heap.asked = [24, 24, 32, 24, 24, 24, 88] ∧
      grants heap.journal.toList = [(.placed 64, 24), (.placed 128, 24), (.placed 192, 32),
        (.placed 256, 24), (.placed 320, 24), (.placed 64, 24)] ∧
      releases heap.journal.toList = [(.placed 320, 24), (.placed 64, 24)] ∧
      heap.host.taken = [.placed 64, .placed 256, .placed 192, .placed 128] ∧
      heap.live = [.placed 128, .placed 192, .placed 64, .placed 256]) ∧
    Calling .tour heap.journal.toList point ∧ heap.Balanced ∧ point.collector.Settles ∧
      ∀ fault after, GivesUp point fault after → point.Lawful → after.Settles := by
  have disciplined := Runs.raw_memory TypeTable.valid_mixed .short ({} : Shelves) .tour
    (Runs.lawful_tour 40)
  exact ⟨_, by decide +kernel, disciplined⟩

end Reclaim
