import StackMachine.Proofs.Machine.Heap

/-!
# What each access reads and leaves

Slices, words, stores and copies go through exactly if the stretches that they name lie inside memory, and otherwise meet
the fault of the first one that does not (`Memory.Accesses`).  A copy looks at all bytes of its source before it writes,
so however source and target overlap, each byte of the target becomes the byte that its source held
(`getElem?_move_of_inside`).

Two memories of the same shape read alike wherever their bytes agree (`slice_congr`).  So reading is not affected by a
store or a copy whose target it does not meet.
-/

namespace StackMachine

/-- The byte `n` belongs to the stretch of `length` bytes at `address`. -/
def Word.Reaches (address length : Word) (n : Nat) : Prop :=
  address.toInt ≤ n ∧ n < address.toInt + length.toInt

/-- No byte belongs to the stretches at both addresses. -/
def Word.Apart (address length other otherLength : Word) : Prop :=
  ∀ n, ¬ (Word.Reaches address length n ∧ Word.Reaches other otherLength n)

theorem Memory.Holds.reaches_iff {memory : Memory} {address length : Word} (h : memory.Holds address length) (n : Nat) :
    Word.Reaches address length n ↔ Stretch.Covers ⟨Word.index address, Word.index length⟩ n := by
  obtain ⟨haddress, hlength, -⟩ := h
  unfold Word.Reaches Stretch.Covers Word.index
  dsimp only
  omega

/-- A stretch that lies inside memory ends inside it. -/
theorem Memory.Holds.end_le {memory : Memory} {address length : Word} (h : memory.Holds address length) :
    Word.index address + Word.index length ≤ memory.bytes.size := by
  obtain ⟨haddress, hlength, hend⟩ := h
  unfold Word.index
  omega

theorem Bytes.slice_ext {a b : Bytes} {i j count : Nat} (h : ∀ k, k < count → a[i + k]? = b[j + k]?) :
    a.slice i count = b.slice j count := by
  apply List.ext_getElem?
  intro k
  rw [Bytes.getElem?_slice, Bytes.getElem?_slice]
  by_cases hk : k < count
  · rw [if_pos hk, if_pos hk, h k hk]
  · rw [if_neg hk, if_neg hk]

theorem index_wordLength : Word.index wordLength = wordSize := by
  decide

theorem Memory.Holds.word_end_le {memory : Memory} {address : Word} (h : memory.Holds address wordLength) :
    Word.index address + wordSize ≤ memory.bytes.size := by
  have hend := h.end_le
  rwa [index_wordLength] at hend

/-! ### Reading -/

theorem Memory.slice_ok_iff {memory : Memory} {address length : Word} {bytes : List UInt8} :
    memory.slice address length = .ok bytes ↔
      memory.Holds address length ∧ bytes.length = Word.index length ∧
        ∀ k, k < Word.index length → bytes[k]? = memory.bytes[Word.index address + k]? := by
  rw [Memory.slice_eq]
  constructor
  · intro h
    split at h
    · rename_i hholds
      cases h
      refine ⟨hholds, Bytes.length_slice_of_le hholds.end_le, fun k hk => ?_⟩
      rw [Bytes.getElem?_slice, if_pos hk]
    · cases h
  · rintro ⟨hholds, hlength, hbytes⟩
    rw [if_pos hholds]
    congr 1
    apply List.ext_getElem?
    intro k
    rw [Bytes.getElem?_slice]
    by_cases hk : k < Word.index length
    · rw [if_pos hk, hbytes k hk]
    · rw [if_neg hk, List.getElem?_eq_none (by omega)]

theorem Memory.slice_error_iff {memory : Memory} {address length : Word} {fault : Fault} :
    memory.slice address length = .error fault ↔
      ¬ memory.Holds address length ∧ fault = .memoryOutOfBounds address length := by
  rw [Memory.slice_eq]
  by_cases hholds : memory.Holds address length
  · simp [hholds]
  · simp [hholds, eq_comm]

/-- A word is loaded where its four bytes stand. -/
theorem Memory.load_ok_iff {memory : Memory} {address value : Word} :
    memory.load address = .ok value ↔ memory.slice address wordLength = .ok (Word.toBytes value) := by
  rw [Memory.load_eq, Memory.slice_eq]
  by_cases hholds : memory.Holds address wordLength
  · rw [if_pos hholds, if_pos hholds]
    have hlength : (memory.bytes.slice (Word.index address) (Word.index wordLength)).length = wordSize := by
      rw [index_wordLength]
      exact Bytes.length_slice_of_le hholds.word_end_le
    constructor
    · intro h
      cases h
      rw [Word.toBytes_ofBytes hlength]
    · intro h
      rw [Except.ok.inj h, Word.ofBytes_toBytes]
  · simp [hholds]

theorem Memory.load_error_iff {memory : Memory} {address : Word} {fault : Fault} :
    memory.load address = .error fault ↔
      ¬ memory.Holds address wordLength ∧ fault = .memoryOutOfBounds address wordLength := by
  rw [Memory.load_eq]
  by_cases hholds : memory.Holds address wordLength
  · simp [hholds]
  · simp [hholds, eq_comm]

/-- Memories of one shape read alike where their bytes agree. -/
theorem Memory.slice_congr {a b : Memory} (hshape : a.SameShape b) {address length : Word}
    (h : ∀ n, Word.Reaches address length n → a.bytes[n]? = b.bytes[n]?) :
    a.slice address length = b.slice address length := by
  rw [Memory.slice_eq, Memory.slice_eq]
  by_cases hholds : b.Holds address length
  · rw [if_pos ((hshape.holds_iff _ _).2 hholds), if_pos hholds]
    congr 1
    refine Bytes.slice_ext fun k hk => h _ ?_
    rw [hholds.reaches_iff]
    exact Stretch.covers_add _ hk
  · rw [if_neg (fun ha => hholds ((hshape.holds_iff _ _).1 ha)), if_neg hholds]

theorem Memory.load_congr {a b : Memory} (hshape : a.SameShape b) {address : Word}
    (h : ∀ n, Word.Reaches address wordLength n → a.bytes[n]? = b.bytes[n]?) : a.load address = b.load address := by
  unfold Memory.load
  rw [Memory.slice_congr hshape h]

/-! ### Writing -/

theorem Memory.bytes_put (memory : Memory) (address value : Word) :
    (memory.put address value).bytes = memory.bytes.overwrite (Word.index address) (Word.toBytes value) := by
  rw [Memory.put, Memory.overwrite]

theorem Memory.bytes_move (memory : Memory) (source target length : Word) :
    (memory.move source target length).bytes =
      memory.bytes.overwrite (Word.index target) (memory.bytes.slice (Word.index source) (Word.index length)) := by
  rw [Memory.move, Memory.overwrite]

theorem Memory.getElem?_put_of_outside {memory : Memory} {address value : Word} {n : Nat}
    (h : ¬ Stretch.Covers ⟨Word.index address, wordSize⟩ n) :
    (memory.put address value).bytes[n]? = memory.bytes[n]? := by
  rw [Memory.bytes_put]
  apply Bytes.getElem?_overwrite_of_outside
  rw [Word.length_toBytes]
  unfold Stretch.Covers at h
  dsimp only at h
  omega

/-- Each byte of the target is the byte that the source held before, however they overlap. -/
theorem Memory.getElem?_move_of_inside {memory : Memory} {source target length : Word}
    (hsource : memory.Holds source length) (htarget : memory.Holds target length) {k : Nat}
    (hk : k < Word.index length) :
    (memory.move source target length).bytes[Word.index target + k]? = memory.bytes[Word.index source + k]? := by
  have hlength : (memory.bytes.slice (Word.index source) (Word.index length)).length = Word.index length :=
    Bytes.length_slice_of_le hsource.end_le
  have hend : Word.index target + (memory.bytes.slice (Word.index source) (Word.index length)).length ≤
      memory.bytes.size := by
    rw [hlength]
    exact htarget.end_le
  have hinside := Bytes.getElem?_overwrite_of_inside (by rw [hlength]; exact hk) hend
  rw [Memory.bytes_move, hinside, Bytes.getElem?_slice, if_pos hk]

theorem Memory.slice_put {memory : Memory} {address value : Word} (h : memory.Holds address wordLength) :
    (memory.put address value).slice address wordLength = .ok (Word.toBytes value) := by
  have hshape : (memory.put address value).SameShape memory := memory.sameShape_overwrite _ _
  have hend : Word.index address + (Word.toBytes value).length ≤ memory.bytes.size := by
    rw [Word.length_toBytes]
    exact h.word_end_le
  rw [Memory.slice_ok_iff, index_wordLength]
  refine ⟨(hshape.holds_iff _ _).2 h, Word.length_toBytes value, fun k hk => ?_⟩
  rw [Memory.bytes_put, Bytes.getElem?_overwrite_of_inside (by rw [Word.length_toBytes]; exact hk) hend]

/-- The memory after a write to the stretch of `length` bytes at `address`, and to no other byte. -/
structure Memory.WrittenAt (before : Memory) (address length : Word) (after : Memory) : Prop where
  shape : after.SameShape before
  elsewhere : ∀ n, ¬ Word.Reaches address length n → after.bytes[n]? = before.bytes[n]?
  /-- What does not meet the stretch is loaded as before. -/
  load : ∀ other, Word.Apart other wordLength address length → after.load other = before.load other

theorem Memory.writtenAt_of_elsewhere {before after : Memory} {address length : Word} (hshape : after.SameShape before)
    (h : ∀ n, ¬ Word.Reaches address length n → after.bytes[n]? = before.bytes[n]?) :
    before.WrittenAt address length after :=
  ⟨hshape, h, fun _ hapart => Memory.load_congr hshape fun n hn => h n fun hwritten => hapart n ⟨hn, hwritten⟩⟩

theorem Memory.writtenAt_of_store {memory next : Memory} {address value : Word}
    (h : memory.store address value = .ok next) : memory.WrittenAt address wordLength next := by
  obtain ⟨hholds, rfl⟩ := Memory.store_ok h
  refine Memory.writtenAt_of_elsewhere (memory.sameShape_overwrite _ _) fun n hn => ?_
  rw [hholds.reaches_iff, index_wordLength] at hn
  exact Memory.getElem?_put_of_outside hn

theorem Memory.writtenAt_of_copy {memory next : Memory} {source target length : Word}
    (h : memory.copy source target length = .ok next) : memory.WrittenAt target length next := by
  obtain ⟨-, htarget, rfl⟩ := Memory.copy_ok h
  refine Memory.writtenAt_of_elsewhere (memory.sameShape_move _ _ _) fun n hn => ?_
  rw [htarget.reaches_iff] at hn
  exact Memory.getElem?_move_of_outside hn

/-! ### All accesses -/

/-- What becomes of every access to a memory.  A stretch that does not lie inside is told with its address and its
length, and the state is then as it was. -/
structure Memory.Accesses (memory : Memory) : Prop where
  slice_ok : ∀ address length bytes, memory.slice address length = .ok bytes ↔
    memory.Holds address length ∧ bytes.length = Word.index length ∧
      ∀ k, k < Word.index length → bytes[k]? = memory.bytes[Word.index address + k]?
  slice_error : ∀ address length fault, memory.slice address length = .error fault ↔
    ¬ memory.Holds address length ∧ fault = .memoryOutOfBounds address length
  load_ok : ∀ address value, memory.load address = .ok value ↔
    memory.slice address wordLength = .ok (Word.toBytes value)
  load_error : ∀ address fault, memory.load address = .error fault ↔
    ¬ memory.Holds address wordLength ∧ fault = .memoryOutOfBounds address wordLength
  store_ok : ∀ address value, (∃ next, memory.store address value = .ok next) ↔ memory.Holds address wordLength
  store_error : ∀ address value fault, memory.store address value = .error fault ↔
    ¬ memory.Holds address wordLength ∧ fault = .memoryOutOfBounds address wordLength
  stored : ∀ address value next, memory.store address value = .ok next →
    next.load address = .ok value ∧ memory.WrittenAt address wordLength next
  copy_ok : ∀ source target length, (∃ next, memory.copy source target length = .ok next) ↔
    memory.Holds source length ∧ memory.Holds target length
  /-- The source is looked at first. -/
  copy_error : ∀ source target length fault, memory.copy source target length = .error fault ↔
    (¬ memory.Holds source length ∧ fault = .memoryOutOfBounds source length) ∨
    (memory.Holds source length ∧ ¬ memory.Holds target length ∧ fault = .memoryOutOfBounds target length)
  copied : ∀ source target length next, memory.copy source target length = .ok next →
    (∀ k, k < Word.index length → next.bytes[Word.index target + k]? = memory.bytes[Word.index source + k]?) ∧
    memory.WrittenAt target length next
  /-- A run goes on with the memory that was written. -/
  performed : ∀ s : State, s.memory = memory →
    (∀ address value next, memory.store address value = .ok next →
      Action.store address value s = .ok () { s with memory := next }) ∧
    ∀ source target length next, memory.copy source target length = .ok next →
      Action.copy source target length s = .ok () { s with memory := next }
  /-- A run that meets the fault of an access is left in the state that it was in. -/
  refused : ∀ s : State, s.memory = memory → ∀ fault,
    (∀ address length, memory.slice address length = .error fault →
      Action.read (·.slice address length) s = .error fault s) ∧
    (∀ address, memory.load address = .error fault → Action.read (·.load address) s = .error fault s) ∧
    (∀ address value, memory.store address value = .error fault → Action.store address value s = .error fault s) ∧
    ∀ source target length, memory.copy source target length = .error fault →
      Action.copy source target length s = .error fault s

/-- Whatever memory holds and wherever the stretches lie, its accesses do what they say and nothing else. -/
theorem Memory.accesses (memory : Memory) : memory.Accesses := by
  constructor
  case slice_ok => exact fun _ _ _ => Memory.slice_ok_iff
  case slice_error => exact fun _ _ _ => Memory.slice_error_iff
  case load_ok => exact fun _ _ => Memory.load_ok_iff
  case load_error => exact fun _ _ => Memory.load_error_iff
  case store_ok =>
    intro address value
    constructor
    · rintro ⟨next, h⟩
      exact (Memory.store_ok h).1
    · intro h
      exact ⟨_, by rw [Memory.store_eq, if_pos h]⟩
  case store_error =>
    intro address value fault
    rw [Memory.store_eq]
    by_cases h : memory.Holds address wordLength
    · simp [h]
    · simp [h, eq_comm]
  case stored =>
    intro address value next h
    refine ⟨?_, Memory.writtenAt_of_store h⟩
    obtain ⟨hholds, rfl⟩ := Memory.store_ok h
    exact Memory.load_ok_iff.2 (Memory.slice_put hholds)
  case copy_ok =>
    intro source target length
    constructor
    · rintro ⟨next, h⟩
      obtain ⟨hsource, htarget, -⟩ := Memory.copy_ok h
      exact ⟨hsource, htarget⟩
    · rintro ⟨hsource, htarget⟩
      exact ⟨_, Memory.copy_of_holds hsource htarget⟩
  case copy_error =>
    intro source target length fault
    rw [Memory.copy_eq]
    by_cases hsource : memory.Holds source length
    · by_cases htarget : memory.Holds target length
      · simp [hsource, htarget]
      · simp [hsource, htarget, eq_comm]
    · simp [hsource, eq_comm]
  case copied =>
    intro source target length next h
    refine ⟨?_, Memory.writtenAt_of_copy h⟩
    obtain ⟨hsource, htarget, rfl⟩ := Memory.copy_ok h
    exact fun k hk => Memory.getElem?_move_of_inside hsource htarget hk
  case performed =>
    rintro s rfl
    refine ⟨fun address value next h => ?_, fun source target length next h => ?_⟩
    · rw [Action.store_apply, h]
    · rw [Action.copy_apply, h]
  case refused =>
    rintro s rfl fault
    refine ⟨fun _ _ h => Action.read_of_error h, fun _ h => Action.read_of_error h, fun address value h => ?_,
      fun source target length h => ?_⟩
    · rw [Action.store_apply, h]
    · rw [Action.copy_apply, h]

/-- Bytes are moved upwards and downwards over themselves. -/
example :
    let memory : Memory := ⟨#[1, 2, 3, 4, 5], .ofSizes 0 5 0⟩
    (memory.copy 0 1 4).toOption.map Memory.bytes = some #[1, 1, 2, 3, 4] ∧
      (memory.copy 1 0 4).toOption.map Memory.bytes = some #[2, 3, 4, 5, 5] := by
  decide +kernel

end StackMachine
