import Reclaim.Proofs.Heap.Image
import Reclaim.Proofs.Run.Identity

namespace Reclaim

def Layout.Overlaps (layout : Layout) (offset : Word) : Prop :=
  ∃ base item lengthOffset, layout = .varsize base item lengthOffset ∧
    offset.toNat < lengthOffset.toNat + 8 ∧ lengthOffset.toNat < offset.toNat + 8

namespace Heap

variable {σ : Type} {before after heap : Heap σ} {a b : Ref} {descriptor : Descriptor}
  {length : Word}

/-- A run of bytes was stored into the payload of an object, and nothing else has changed. -/
structure Stores (before after : Heap σ) (a : Ref) (start : Nat) (run : List UInt8) : Prop where
  rest : after = { before with memory := after.memory }
  headers : ∀ o, after.memory.headerWord o = before.memory.headerWord o
  lengths : ∀ o, after.lengthOf o = before.lengthOf o ∧
    (after.view o).map View.payloadLength = (before.view o).map View.payloadLength
  bytes : (after.memory.payload a).byte =
    Bytes.overwrite (before.memory.payload a).byte start run
  others : ∀ b ≠ a, after.memory.payload b = before.memory.payload b
  shown : ∀ space, before.Shown space →
    after.Shown (space.overwrite (a.word.toNat + 8 + start) run)
  consistent : after.Consistent
  accounted : after.Accounted

theorem Wrote.stores (consistent : before.Consistent) (accounted : before.Accounted)
    {start : Nat} {run : List UInt8} (h : before.Wrote after a start run)
    (readable : before.Readable a descriptor length) (inside : start + run.length ≤ length.toNat) :
    before.Stores after a start run where
  rest := by rw [h.after_eq]
  headers := h.headerWord
  lengths := fun o => ⟨h.lengthOf_eq o, h.payloadLength_eq o⟩
  bytes := by rw [h.payload, if_pos rfl, Payload.byte_write_eq_overwrite]
  others := fun b other => by rw [h.payload, if_neg (Ne.symm other)]
  shown := fun _ => h.shown consistent accounted readable inside
  consistent := h.consistent consistent
  accounted := h.accounted accounted

/-- What accesses do to a live object that has a payload of `length` bytes. -/
structure ByteStore (heap : Heap σ) (a : Ref) (descriptor : Descriptor) (length : Word) :
    Prop where
  known : heap.descriptorOf a = .ok descriptor
  view : ∃ view, heap.view a = .ok view ∧ view.payloadLength = length
  bounded : a.word.toNat + 8 + length.toNat ≤ UInt64.size
  read_refused : ∀ j, (∃ fault, heap.readWord a j = .error fault) ↔ length.toNat < j.toNat + 8
  read : ∀ j w, heap.readWord a j = .ok w →
    w.toNat = Bytes.number (heap.memory.payload a).byte j.toNat ∧
      ∀ space, heap.Shown space → w.toNat = space.number (a.word.toNat + 8 + j.toNat)
  write_refused : ∀ i w, (∃ fault after, writeWord a i w heap = .error fault after) ↔
    length.toNat < i.toNat + 8 ∨ descriptor.layout.Overlaps i
  unchanged : ∀ i w fault after, writeWord a i w heap = .error fault after → after = heap
  stores : ∀ i w after, writeWord a i w heap = .ok () after →
    heap.Stores after a i.toNat w.toBytes
  read_written : ∀ i w after, writeWord a i w heap = .ok () after → after.readWord a i = .ok w
  read_mixed : ∀ i w after, writeWord a i w heap = .ok () after →
    ∀ j, j.toNat + 8 ≤ length.toNat → ∃ mixed, after.readWord a j = .ok mixed ∧
      mixed.toNat =
        (Bytes.overwrite (heap.memory.payload a).byte i.toNat w.toBytes).number j.toNat
  read_other : ∀ i w after, writeWord a i w heap = .ok () after →
    ∀ b ≠ a, ∀ j, after.readWord b j = heap.readWord b j
  ref_written : ∀ i target after, writeRef a i target heap = .ok () after →
    after.readRef a i = .ok target
  slice : ∃ start room, writablePart a heap = .ok (start, room) ∧
    start.toNat = descriptor.layout.writableFrom ∧ start.toNat + room.toNat = length.toNat ∧
    ∀ offset run, offset.toNat + run.length ≤ room.toNat →
      ∃ after, writePayload a offset run heap = .ok room after ∧
        heap.Stores after a (start.toNat + offset.toNat) run

namespace Readable

variable {i j w : Word} (readable : heap.Readable a descriptor length)

include readable

section Reading

theorem readWord_eq_ok (inside : j.toNat + 8 ≤ length.toNat) :
    heap.readWord a j = .ok ((heap.memory.payload a).readWord j.toNat) := by
  simp only [readWord, readable.view_eq_ok, bind, Except.bind]
  exact View.readWord_eq_ok inside

theorem inside_of_readWord (read : heap.readWord a j = .ok w) : j.toNat + 8 ≤ length.toNat := by
  simp only [readWord, readable.view_eq_ok, View.readWord, bind, Except.bind] at read
  cases within : checkBounds j Word.size length with
  | ok _ => exact checkBounds_ok within
  | error fault =>
    rw [within] at read
    cases read

theorem readWord_refused :
    (∃ fault, heap.readWord a j = .error fault) ↔ length.toNat < j.toNat + 8 := by
  rw [← Nat.not_le]
  constructor
  · rintro ⟨fault, failed⟩ inside
    rw [readable.readWord_eq_ok inside] at failed
    cases failed
  · intro outside
    cases read : heap.readWord a j with
    | error fault => exact ⟨fault, rfl⟩
    | ok w => exact absurd (readable.inside_of_readWord read) outside

theorem toNat_readWord (read : heap.readWord a j = .ok w) :
    w.toNat = Bytes.number (heap.memory.payload a).byte j.toNat := by
  rw [readable.readWord_eq_ok (readable.inside_of_readWord read)] at read
  cases read
  exact Payload.toNat_readWord ..

theorem toNat_readWord_shown (live : a ∈ heap.live) (read : heap.readWord a j = .ok w)
    {space : Bytes} (shown : heap.Shown space) :
    w.toNat = space.number (a.word.toNat + 8 + j.toNat) := by
  have inside := readable.inside_of_readWord read
  rw [readable.toNat_readWord read]
  refine Bytes.number_congr fun k small => ?_
  rw [Nat.add_assoc]
  refine (shown.payload a live _ readable.view_eq_ok _ ?_).symm
  dsimp only
  omega

end Reading

section Writing

theorem checkWritable_iff (valid : heap.types.Valid) : checkWritable a i heap = .ok () ↔
    ¬ (length.toNat < i.toNat + 8 ∨ descriptor.layout.Overlaps i) := by
  constructor
  · intro checked
    simp only [checkWritable, readable.view_eq_ok, readable.descriptorOf_eq_ok, bind,
      Except.bind] at checked
    cases within : checkBounds i Word.size length with
    | error fault =>
      rw [within] at checked
      cases checked
    | ok _ =>
      rintro (outside | ⟨base, item, lengthOffset, layout, low, high⟩)
      · exact absurd (checkBounds_ok within) (Nat.not_le.mpr outside)
      · simp only [within, layout] at checked
        rcases Descriptor.checkDisjoint_ok checked with before | behind
        · exact absurd high (Nat.not_lt.mpr before)
        · exact absurd low (Nat.not_lt.mpr behind)
  · intro free
    rw [not_or, Nat.not_lt] at free
    refine readable.checkWritable_eq_ok valid free.1 ?_
    intro base item lengthOffset layout
    by_contra touching
    simp only [Payload.Apart, not_or, Nat.not_le] at touching
    exact free.2 ⟨base, item, lengthOffset, layout, touching.2, touching.1⟩

theorem writeWord_refused (valid : heap.types.Valid) :
    (∃ fault after, writeWord a i w heap = .error fault after) ↔
      length.toNat < i.toNat + 8 ∨ descriptor.layout.Overlaps i := by
  rw [← not_iff_not, ← readable.checkWritable_iff valid, writeWord]
  cases checked : checkWritable a i heap with
  | ok _ =>
    rw [bind_of_ok (check_of_ok checked)]
    refine iff_of_true ?_ rfl
    rintro ⟨_, _, run⟩
    cases run
  | error fault =>
    rw [bind_of_error (check_eq_error.mpr ⟨checked, rfl⟩)]
    refine iff_of_false (fun none => none ⟨_, _, rfl⟩) ?_
    intro passed
    cases passed

variable (consistent : heap.Consistent) (live : a ∈ heap.live)

include consistent live

theorem wrote_of_writeWord (run : writeWord a i w heap = .ok () after) :
    heap.Wrote after a i.toNat w.toBytes ∧ i.toNat + 8 ≤ length.toNat := by
  refine ⟨Heap.wrote_of_writeWord live run, ?_⟩
  by_contra outside
  obtain ⟨fault, last, refused⟩ : ∃ fault last, writeWord a i w heap = .error fault last :=
    (readable.writeWord_refused consistent.types_valid).mpr (.inl (Nat.not_le.mp outside))
  rw [run] at refused
  cases refused

theorem readWord_written (run : writeWord a i w heap = .ok () after) :
    after.readWord a i = .ok w := by
  obtain ⟨wrote, inside⟩ := readable.wrote_of_writeWord consistent live run
  rw [(wrote.readable readable).readWord_eq_ok inside, wrote.payload, if_pos rfl]
  exact congrArg Except.ok (Payload.readWord_writeWord_self ..)

theorem readWord_mixed (run : writeWord a i w heap = .ok () after)
    (inside : j.toNat + 8 ≤ length.toNat) : ∃ mixed, after.readWord a j = .ok mixed ∧
      mixed.toNat =
        (Bytes.overwrite (heap.memory.payload a).byte i.toNat w.toBytes).number j.toNat := by
  have wrote := (readable.wrote_of_writeWord consistent live run).1
  refine ⟨_, (wrote.readable readable).readWord_eq_ok inside, ?_⟩
  rw [Payload.toNat_readWord, wrote.payload, if_pos rfl, Payload.byte_write_eq_overwrite]

theorem readRef_written {target : Option Ref} (run : writeRef a i target heap = .ok () after) :
    after.readRef a i = .ok target := by
  have written := readable.readWord_written consistent live run
  have read : after.readRef a i = Ref.ofWord? <$> after.readWord a i := by
    rw [readRef, readWord]
    cases after.view a <;> rfl
  rw [read, written]
  exact congrArg Except.ok (Ref.ofWord?_slotWord target)

theorem exists_slice (accounted : heap.Accounted) :
    ∃ start room, writablePart a heap = .ok (start, room) ∧
      start.toNat = descriptor.layout.writableFrom ∧ start.toNat + room.toNat = length.toNat ∧
      ∀ offset run, offset.toNat + run.length ≤ room.toNat →
        ∃ after, writePayload a offset run heap = .ok room after ∧
          heap.Stores after a (start.toNat + offset.toNat) run := by
  obtain ⟨start, room, writable, first, total⟩ :=
    readable.exists_writablePart consistent.types_valid
  refine ⟨start, room, writable, first, total, ?_⟩
  intro offset run inside
  obtain ⟨after, written⟩ : ∃ after, writePayload a offset run heap = .ok room after := by
    rw [writePayload, bind_of_ok (check_of_ok writable)]
    exact ⟨_, rfl⟩
  obtain ⟨start', writable', wrote⟩ := wrote_of_writePayload live written
  cases writable.symm.trans writable'
  rw [List.take_of_length_le (by omega)] at wrote
  exact ⟨after, written, wrote.stores consistent accounted readable (by omega)⟩

end Writing

end Readable

theorem Wrote.readWord_other {start : Nat} {run : List UInt8} (h : before.Wrote after a start run)
    (other : b ≠ a) (j : Word) : after.readWord b j = before.readWord b j := by
  have payload : after.memory.payload b = before.memory.payload b := by
    rw [h.payload, if_neg (Ne.symm other)]
  simp only [readWord, view, TypeTable.view, h.types_eq, (h.sameShape b).typeId, payload]

/-- In every heap whose registries and accounts agree, with nothing assumed of the embedder, live
    objects are byte stores, and they are so beside each other in one address space. -/
theorem byte_store (consistent : heap.Consistent) (accounted : heap.Accounted) :
    (∃ space, heap.Shown space) ∧
      ∀ a ∈ heap.live, ∃ descriptor length, heap.ByteStore a descriptor length := by
  refine ⟨⟨_, shown_image consistent accounted⟩, ?_⟩
  intro a live
  have valid := consistent.types_valid
  obtain ⟨descriptor, length, readable⟩ := consistent.readable live
  refine ⟨descriptor, length, {
    known := readable.descriptorOf_eq_ok
    view := ⟨_, readable.view_eq_ok, rfl⟩
    bounded := ?_
    read_refused := fun j => readable.readWord_refused
    read := fun j w read => ⟨readable.toNat_readWord read,
      fun space => readable.toNat_readWord_shown live read⟩
    write_refused := fun i w => readable.writeWord_refused valid
    unchanged := ?_
    stores := ?_
    read_written := fun i w after => readable.readWord_written consistent live
    read_mixed := fun i w after run j => readable.readWord_mixed consistent live run
    read_other := fun i w after run b other => (wrote_of_writeWord live run).readWord_other other
    ref_written := fun i target after => readable.readRef_written consistent live
    slice := readable.exists_slice consistent live accounted }⟩
  · have room := accounted.room_of_readable live readable
    have block := accounted.bounded _ (accounted.mem_held live)
    dsimp only at block
    omega
  · intro i w fault after refused
    rw [writeWord, bind_eq_error] at refused
    rcases refused with checked | ⟨_, _, _, run⟩
    · exact (check_eq_error.mp checked).2
    · cases run
  · intro i w after run
    obtain ⟨wrote, inside⟩ := readable.wrote_of_writeWord consistent live run
    exact wrote.stores consistent accounted readable (by rwa [Word.length_toBytes])

def oneRow : Heap SystemMemory :=
  noRow.afterwards (allocateNow .pair 32)

def twoRows : Heap SystemMemory :=
  oneRow.afterwards (allocateNow .pair 32)

theorem wellFormed_twoRows : twoRows.Consistent ∧ twoRows.Accounted := by
  have first : noRow.Granted oneRow .pair 32 .lowest := granted_of_allocateNow rfl
  have second : oneRow.Granted twoRows .pair 32 (.placed 48) := granted_of_allocateNow rfl
  obtain ⟨_, admitted⟩ := Request.exists_admitted
    (show Request.pair.accept noRow.types 0 = .ok 32 from rfl)
  have consistent := Heap.consistent_create TypeTable.valid_rows {} ({} : SystemMemory)
  have accounted := Heap.accounted_create .rows {} ({} : SystemMemory)
  have fits : noRow.ledger.Fits (.lowest, 32) := ⟨by decide, nofun⟩
  have fits' : oneRow.ledger.Fits (.placed 48, 32) := by
    refine ⟨by decide, ?_⟩
    intro other member
    have held : oneRow.ledger.held = [(.lowest, 32)] := rfl
    rw [held, List.mem_singleton] at member
    subst member
    exact .inl (by decide)
  have fresh : .lowest ∉ noRow.live := nofun
  have fresh' : .placed 48 ∉ oneRow.live := by decide
  have types : oneRow.types = noRow.types := rfl
  have consistent' := first.consistent consistent fresh admitted
  exact ⟨second.consistent consistent' fresh' (types ▸ admitted),
    second.accounted (first.accounted accounted fresh fits admitted) fresh' fits'
      (types ▸ admitted)⟩

theorem byte_store_rows : .placed 48 ∈ twoRows.live ∧
    ∃ descriptor, twoRows.ByteStore .lowest descriptor 24 ∧
      (∃ after, writeWord .lowest 13 0x0102030405060708 twoRows = .ok () after ∧
        twoRows.Stores after .lowest 13 [8, 7, 6, 5, 4, 3, 2, 1] ∧
        after.readWord .lowest 9 = .ok 0x0506070800000000) ∧
      ∃ fault after, writeWord .lowest 7 0 twoRows = .error fault after := by
  have live : twoRows.live = [.lowest, .placed 48] := rfl
  have first : .lowest ∈ twoRows.live := live ▸ List.mem_cons_self
  have second : .placed 48 ∈ twoRows.live := live ▸ List.mem_cons_of_mem _ List.mem_cons_self
  obtain ⟨descriptor, length, store⟩ :=
    (byte_store wellFormed_twoRows.1 wellFormed_twoRows.2).2 .lowest first
  obtain rfl : length = 24 := by
    obtain ⟨view, seen, same⟩ := store.view
    have known : (twoRows.view .lowest).map View.payloadLength = .ok 24 := rfl
    rw [seen] at known
    exact same.symm.trans (Except.ok.inj known)
  obtain rfl : descriptor = { name := "row", layout := .varsize 8 8 0, trace := .slots [] } :=
    (Except.ok.inj store.known).symm
  refine ⟨second, _, store, ?_, ?_⟩
  · obtain ⟨after, written⟩ :
        ∃ after, writeWord .lowest 13 0x0102030405060708 twoRows = .ok () after := ⟨_, rfl⟩
    obtain ⟨mixed, read, value⟩ := store.read_mixed _ _ after written 9 (by decide)
    have word : mixed = 0x0506070800000000 := UInt64.toNat_inj.mp value
    exact ⟨after, written, store.stores _ _ after written, word ▸ read⟩
  · exact (store.write_refused 7 0).mpr (.inr ⟨8, 8, 0, rfl, by decide, by decide⟩)

end Heap

end Reclaim
