import StackMachine.Machine.Step

/-!
# Accesses to memory

Each access either goes through or meets the fault of the first stretch that does not lie inside memory; `load_eq`,
`store_eq`, `slice_eq` and `copy_eq` say which.  No access changes the number of bytes or the regions
(`Memory.SameShape`), so what lies inside memory stays inside.

An exchange makes three copies.  In memory whose regions lie inside the buffer (`Memory.Sound`) none of them can fail
once both stretches and the room that they need have been checked: `exchange_apply`.
-/

namespace StackMachine

/-- The regions lie one after the other and fill the buffer, and every offset of the buffer is a word. -/
structure Memory.Sound (memory : Memory) : Prop where
  stackStart_le : memory.layout.stackStart ≤ memory.layout.heapStart
  heapStart_le : memory.layout.heapStart ≤ memory.layout.stop
  stop_eq : memory.layout.stop = memory.bytes.size
  size_le : memory.bytes.size ≤ maxWord

theorem Memory.Sound.heapStart_le_maxWord {memory : Memory} (h : memory.Sound) : memory.layout.heapStart ≤ maxWord := by
  obtain ⟨-, hheap, hstop, hsize⟩ := h
  omega

/-- Two memories with the same regions and equally many bytes. -/
structure Memory.SameShape (a b : Memory) : Prop where
  layout_eq : a.layout = b.layout
  size_eq : a.bytes.size = b.bytes.size

theorem Memory.SameShape.refl (memory : Memory) : memory.SameShape memory :=
  ⟨rfl, rfl⟩

theorem Memory.SameShape.trans {a b c : Memory} (hab : a.SameShape b) (hbc : b.SameShape c) : a.SameShape c :=
  ⟨hab.layout_eq.trans hbc.layout_eq, hab.size_eq.trans hbc.size_eq⟩

theorem Memory.SameShape.sound {a b : Memory} (h : a.SameShape b) (hb : b.Sound) : a.Sound := by
  obtain ⟨hlayout, hsize⟩ := h
  refine ⟨?_, ?_, ?_, ?_⟩
  · rw [hlayout]
    exact hb.stackStart_le
  · rw [hlayout]
    exact hb.heapStart_le
  · rw [hlayout, hsize]
    exact hb.stop_eq
  · rw [hsize]
    exact hb.size_le

theorem Memory.SameShape.holds_iff {a b : Memory} (h : a.SameShape b) (address length : Word) :
    a.Holds address length ↔ b.Holds address length := by
  unfold Memory.Holds
  rw [h.size_eq]

theorem Memory.sameShape_overwrite (memory : Memory) (offset : Nat) (values : List UInt8) :
    (memory.overwrite offset values).SameShape memory :=
  ⟨memory.layout_overwrite offset values, memory.size_overwrite offset values⟩

theorem Memory.sameShape_move (memory : Memory) (source target length : Word) :
    (memory.move source target length).SameShape memory :=
  memory.sameShape_overwrite _ _

/-! ### Single accesses -/

theorem Memory.check_of_holds {memory : Memory} {address length : Word} (h : memory.Holds address length) :
    memory.check address length = .ok () :=
  if_pos h

theorem Memory.check_of_not_holds {memory : Memory} {address length : Word} (h : ¬ memory.Holds address length) :
    memory.check address length = .error (.memoryOutOfBounds address length) :=
  if_neg h

theorem Memory.holds_of_check {memory : Memory} {address length : Word} (h : memory.check address length = .ok ()) :
    memory.Holds address length := by
  unfold Memory.check at h
  split at h
  · assumption
  · cases h

theorem Memory.slice_eq (memory : Memory) (address length : Word) :
    memory.slice address length =
      if memory.Holds address length then .ok (memory.bytes.slice (Word.index address) (Word.index length))
      else .error (.memoryOutOfBounds address length) := by
  unfold Memory.slice
  split
  · rename_i h
    rw [Memory.check_of_holds h]
    rfl
  · rename_i h
    rw [Memory.check_of_not_holds h]
    rfl

theorem Memory.load_eq (memory : Memory) (address : Word) :
    memory.load address =
      if memory.Holds address wordLength then
        .ok (Word.ofBytes (memory.bytes.slice (Word.index address) (Word.index wordLength)))
      else .error (.memoryOutOfBounds address wordLength) := by
  unfold Memory.load
  rw [Memory.slice_eq]
  split <;> rfl

theorem Memory.store_eq (memory : Memory) (address value : Word) :
    memory.store address value =
      if memory.Holds address wordLength then .ok (memory.put address value)
      else .error (.memoryOutOfBounds address wordLength) := by
  unfold Memory.store
  split
  · rename_i h
    rw [Memory.check_of_holds h]
    rfl
  · rename_i h
    rw [Memory.check_of_not_holds h]
    rfl

theorem Memory.copy_eq (memory : Memory) (source target length : Word) :
    memory.copy source target length =
      if ¬ memory.Holds source length then .error (.memoryOutOfBounds source length)
      else if ¬ memory.Holds target length then .error (.memoryOutOfBounds target length)
      else .ok (memory.move source target length) := by
  unfold Memory.copy Memory.checkCopy
  by_cases hs : memory.Holds source length
  · by_cases ht : memory.Holds target length
    · rw [if_neg (not_not_intro hs), if_neg (not_not_intro ht), Memory.check_of_holds hs, Memory.check_of_holds ht]
      rfl
    · rw [if_neg (not_not_intro hs), if_pos ht, Memory.check_of_holds hs, Memory.check_of_not_holds ht]
      rfl
  · rw [if_pos hs, Memory.check_of_not_holds hs]
    rfl

theorem Memory.store_ok {memory next : Memory} {address value : Word} (h : memory.store address value = .ok next) :
    memory.Holds address wordLength ∧ next = memory.put address value := by
  rw [Memory.store_eq] at h
  split at h
  · rename_i hholds
    exact ⟨hholds, (Except.ok.inj h).symm⟩
  · cases h

theorem Memory.copy_ok {memory next : Memory} {source target length : Word}
    (h : memory.copy source target length = .ok next) :
    memory.Holds source length ∧ memory.Holds target length ∧ next = memory.move source target length := by
  rw [Memory.copy_eq] at h
  split at h
  · cases h
  · rename_i hsource
    split at h
    · cases h
    · rename_i htarget
      cases h
      exact ⟨Decidable.not_not.1 hsource, Decidable.not_not.1 htarget, rfl⟩

theorem Memory.copy_of_holds {memory : Memory} {source target length : Word} (hs : memory.Holds source length)
    (ht : memory.Holds target length) : memory.copy source target length = .ok (memory.move source target length) := by
  rw [Memory.copy_eq, if_neg (not_not_intro hs), if_neg (not_not_intro ht)]

/-! ### Offsets as words -/

/-- An offset that is not too large is the word of its address. -/
theorem toInt_addressWord {offset : Nat} (h : offset ≤ maxWord) : (addressWord offset).toInt = offset := by
  unfold maxWord at h
  have hmin : min offset maxWord = offset := Nat.min_eq_left h
  rw [addressWord, hmin]
  exact Int32.toInt_ofNat_of_lt (by omega)

/-- A stretch that starts at an offset lies inside memory if it ends before the heap. -/
theorem Memory.Sound.holds_addressWord {memory : Memory} (h : memory.Sound) {offset : Nat} {size : Word}
    (hsize : 0 ≤ size.toInt) (hfit : offset + Word.index size ≤ memory.layout.heapStart) :
    memory.Holds (addressWord offset) size := by
  have hend : offset + Word.index size ≤ memory.bytes.size := by
    have := h.heapStart_le
    have := h.stop_eq
    omega
  have hword : (addressWord offset).toInt = offset := by
    apply toInt_addressWord
    have := h.size_le
    omega
  have hindex : (Word.index size : Int) = size.toInt := Int.toNat_of_nonneg hsize
  refine ⟨?_, hsize, ?_⟩
  · omega
  · omega

/-! ### Exchanging two stretches -/

/-- Memory with two stretches exchanged through the room from `scratch` on, where all of them have to fit. -/
def Memory.swap (memory : Memory) (scratch : Nat) (first second size : Word) : Memory :=
  ((memory.move first (addressWord scratch) size).move second first size).move (addressWord scratch) second size

/-- Memory with two stretches exchanged, if they lie inside memory and the room they need before the heap. -/
def Memory.exchange (memory : Memory) (scratch : Nat) (first second size : Word) : Except Fault Memory :=
  if ¬ memory.Holds first size then .error (.memoryOutOfBounds first size)
  else if ¬ memory.Holds second size then .error (.memoryOutOfBounds second size)
  else if memory.layout.heapStart < scratch + Word.index size then .error .stackOverflow
  else .ok (memory.swap scratch first second size)

theorem Memory.sameShape_swap (memory : Memory) (scratch : Nat) (first second size : Word) :
    (memory.swap scratch first second size).SameShape memory :=
  ((Memory.sameShape_move _ _ _ _).trans (Memory.sameShape_move _ _ _ _)).trans (Memory.sameShape_move _ _ _ _)

namespace Action

theorem bind_of_ok {α β : Type} {action : Action α} {next : α → Action β} {s t : State} {value : α}
    (h : action s = .ok value t) : (action >>= next) s = next value t := by
  show EStateM.bind action next s = _
  unfold EStateM.bind
  rw [h]

theorem bind_of_error {α β : Type} {action : Action α} {next : α → Action β} {s t : State} {fault : Fault}
    (h : action s = .error fault t) : (action >>= next) s = .error fault t := by
  show EStateM.bind action next s = _
  unfold EStateM.bind
  rw [h]

theorem copy_of_holds {source target length : Word} (s : State) (hs : s.memory.Holds source length)
    (ht : s.memory.Holds target length) :
    copy source target length s = .ok () { s with memory := s.memory.move source target length } := by
  rw [copy_apply, Memory.copy_of_holds hs ht]

/-- The three copies of an exchange go through once its checks have passed. -/
theorem copies_of_holds {scratch : Nat} {first second size : Word} {s : State} (h : s.memory.Sound)
    (hfirst : s.memory.Holds first size) (hsecond : s.memory.Holds second size)
    (hfit : scratch + Word.index size ≤ s.memory.layout.heapStart) :
    (do copy first (addressWord scratch) size
        copy second first size
        copy (addressWord scratch) second size : Action Unit) s =
      .ok () { s with memory := s.memory.swap scratch first second size } := by
  have hscratch := h.holds_addressWord hfirst.2.1 hfit
  -- the memories after the first and the second copy
  let m₁ := s.memory.move first (addressWord scratch) size
  let m₂ := m₁.move second first size
  have h₁ : m₁.SameShape s.memory := Memory.sameShape_move _ _ _ _
  have h₂ : m₂.SameShape s.memory := (Memory.sameShape_move _ _ _ _).trans h₁
  have hcopy₁ : copy first (addressWord scratch) size s = .ok () { s with memory := m₁ } :=
    copy_of_holds s hfirst hscratch
  have hcopy₂ : copy second first size { s with memory := m₁ } = .ok () { s with memory := m₂ } :=
    copy_of_holds { s with memory := m₁ } ((h₁.holds_iff _ _).2 hsecond) ((h₁.holds_iff _ _).2 hfirst)
  have hcopy₃ : copy (addressWord scratch) second size { s with memory := m₂ } =
      .ok () { s with memory := m₂.move (addressWord scratch) second size } :=
    copy_of_holds { s with memory := m₂ } ((h₂.holds_iff _ _).2 hscratch) ((h₂.holds_iff _ _).2 hsecond)
  rw [bind_of_ok hcopy₁, bind_of_ok hcopy₂, hcopy₃]
  rfl

theorem read_of_ok {α : Type} {access : Memory → Except Fault α} {value : α} {s : State}
    (h : access s.memory = .ok value) : read access s = .ok value s := by
  rw [read, h, require]

theorem read_of_error {α : Type} {access : Memory → Except Fault α} {fault : Fault} {s : State}
    (h : access s.memory = .error fault) : read access s = .error fault s := by
  rw [read, h, require]

/-- An exchange leaves the memory that `Memory.exchange` describes, and a fault of it leaves the state as it was. -/
theorem exchange_apply (scratch : Nat) (first second size : Word) {s : State} (h : s.memory.Sound) :
    exchange scratch first second size s =
      match s.memory.exchange scratch first second size with
      | .ok memory => .ok () { s with memory }
      | .error fault => .error fault s := by
  unfold exchange Memory.exchange
  by_cases hfirst : s.memory.Holds first size
  · rw [if_neg (not_not_intro hfirst), bind_of_ok (read_of_ok (Memory.check_of_holds hfirst))]
    by_cases hsecond : s.memory.Holds second size
    · rw [if_neg (not_not_intro hsecond), bind_of_ok (read_of_ok (Memory.check_of_holds hsecond)),
        bind_of_ok (show layout s = .ok s.memory.layout s from rfl)]
      by_cases hroom : s.memory.layout.heapStart < scratch + Word.index size
      · rw [if_pos hroom, if_pos hroom]
        rfl
      · rw [if_neg hroom, if_neg hroom]
        exact copies_of_holds h hfirst hsecond (Nat.le_of_not_lt hroom)
    · rw [if_pos hsecond, bind_of_error (read_of_error (Memory.check_of_not_holds hsecond))]
  · rw [if_pos hfirst, bind_of_error (read_of_error (Memory.check_of_not_holds hfirst))]

end Action

end StackMachine
