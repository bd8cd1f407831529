import StackMachine.Proofs.Machine.Atomicity

/-!
# Heap blocks and the room for exchanges

The heap only grows, and only by requests for a block.  A block starts where the heap ended before the request
(`heap_of_round`), so the blocks of a run lie one behind the other from the start of the heap on
(`heapLaidOut_advance`); each is at least one byte long, whatever was asked for.

An exchange goes through the bytes behind the frame, and only if they suffice.  It changes nothing outside these bytes and
the two stretches that it exchanges (`exchange_of_advance`).
-/

namespace StackMachine

/-! ### Stretches -/

/-- Bytes of memory that follow one another. -/
structure Stretch where
  start : Nat
  length : Nat
deriving DecidableEq, Repr

namespace Stretch

def Covers (stretch : Stretch) (n : Nat) : Prop :=
  stretch.start ≤ n ∧ n < stretch.start + stretch.length

/-- The stretch lies between two offsets. -/
def Inside (stretch : Stretch) (lower upper : Nat) : Prop :=
  lower ≤ stretch.start ∧ stretch.start + stretch.length ≤ upper

/-- One stretch ends before the other starts, so that no byte belongs to both. -/
def Before (a b : Stretch) : Prop :=
  a.start + a.length ≤ b.start

/-- No byte belongs to both stretches. -/
def Apart (a b : Stretch) : Prop :=
  ∀ n, ¬ (a.Covers n ∧ b.Covers n)

/-- Stretches of the given lengths, one behind the other. -/
def consecutive (start : Nat) : List Nat → List Stretch
  | [] => []
  | length :: rest => ⟨start, length⟩ :: consecutive (start + length) rest

/-- The stretches lie between two offsets, and each one before those behind it in the list. -/
structure InOrder (lower upper : Nat) (stretches : List Stretch) : Prop where
  inside : ∀ stretch ∈ stretches, stretch.Inside lower upper
  apart : stretches.Pairwise Before

theorem covers_add (start : Nat) {length k : Nat} (hk : k < length) : Covers ⟨start, length⟩ (start + k) :=
  ⟨Nat.le_add_right _ _, Nat.add_lt_add_left hk _⟩

theorem Before.apart {a b : Stretch} (h : a.Before b) : a.Apart b := by
  rintro n ⟨⟨-, hupper⟩, hlower, -⟩
  unfold Before at h
  omega

theorem Apart.symm {a b : Stretch} (h : a.Apart b) : b.Apart a :=
  fun n hn => h n hn.symm

theorem inOrder_singleton {stretch : Stretch} {lower upper : Nat} (h : stretch.Inside lower upper) :
    InOrder lower upper [stretch] :=
  ⟨by simpa using h, List.pairwise_singleton _ _⟩

/-- Stretches of neighbouring regions are in order. -/
theorem InOrder.append {lower middle upper : Nat} {left right : List Stretch} (hleft : InOrder lower middle left)
    (hright : InOrder middle upper right) (hlower : lower ≤ middle) (hupper : middle ≤ upper) :
    InOrder lower upper (left ++ right) := by
  refine ⟨fun stretch hstretch => ?_, List.pairwise_append.2 ⟨hleft.apart, hright.apart, fun a ha b hb => ?_⟩⟩
  · rcases List.mem_append.1 hstretch with hmem | hmem
    · obtain ⟨hstart, hend⟩ := hleft.inside stretch hmem
      exact ⟨hstart, by omega⟩
    · obtain ⟨hstart, hend⟩ := hright.inside stretch hmem
      exact ⟨by omega, hend⟩
  · exact Nat.le_trans (hleft.inside a ha).2 (hright.inside b hb).1

theorem getElem?_consecutive (start : Nat) (lengths : List Nat) (k : Nat) :
    (consecutive start lengths)[k]? =
      lengths[k]?.map fun length => ⟨start + Size.total (lengths.take k), length⟩ := by
  induction lengths generalizing start k with
  | nil => rfl
  | cons length lengths ih =>
    cases k with
    | zero => simp [consecutive]
    | succ k => simp [consecutive, ih, Nat.add_assoc]

theorem consecutive_append (start : Nat) (lengths more : List Nat) :
    consecutive start (lengths ++ more) =
      consecutive start lengths ++ consecutive (start + Size.total lengths) more := by
  induction lengths generalizing start with
  | nil => rfl
  | cons length lengths ih => simp [consecutive, ih, Nat.add_assoc]

theorem inOrder_consecutive (start : Nat) (lengths : List Nat) :
    InOrder start (start + Size.total lengths) (consecutive start lengths) := by
  induction lengths generalizing start with
  | nil => exact ⟨nofun, List.Pairwise.nil⟩
  | cons length lengths ih =>
    have hfirst : InOrder start (start + length) [⟨start, length⟩] :=
      inOrder_singleton ⟨Nat.le_refl _, Nat.le_refl _⟩
    have hall := hfirst.append (ih (start + length)) (by omega) (by omega)
    rwa [Nat.add_assoc] at hall

end Stretch

/-! ### Blocks from the heap -/

/-- A block that a run has taken from the heap. -/
structure Allocation where
  /-- The size that was asked for. -/
  size : Word
  /-- The address that was given out. -/
  address : Word
  /-- Bytes by which the heap has grown. -/
  length : Nat
deriving DecidableEq, Repr

def Allocation.stretch (block : Allocation) : Stretch :=
  ⟨Word.index block.address, block.length⟩

/-- The block that the next round of a run takes from the heap. -/
def Run.allocation? (f : Function) (limit : Option UInt64) : Run → Option Allocation
  | .running ip s =>
    match Instruction.decodeAt f.code ip, Run.round f limit ip s with
    | .ok ⟨.alloc, _⟩, .running _ t =>
      match s.stack.words, t.stack.words with
      | size :: _, address :: _ => some ⟨size, address, t.heapPointer - s.heapPointer⟩
      | _, _ => none
    | _, _ => none
  | _ => none

/-- The blocks that a run takes from the heap in a number of rounds. -/
def Run.allocations (f : Function) (limit : Option UInt64) (rounds : Nat) (run : Run) : List Allocation :=
  (List.range rounds).filterMap fun done => (Run.advance f limit done run).allocation? f limit

/-- The blocks lie one behind the other from the start of the heap to its end, and are long enough. -/
structure Run.HeapLaidOut (layout : Layout) (blocks : List Allocation) (run : Run) : Prop where
  contiguous : blocks.map Allocation.stretch = Stretch.consecutive layout.heapStart (blocks.map Allocation.length)
  /-- Addresses are not negative. -/
  exact : ∀ block ∈ blocks, block.address.toInt = block.stretch.start
  long : ∀ block ∈ blocks, max 1 block.size.toInt ≤ block.length
  heapPointer_eq : run.state.heapPointer = layout.heapStart + Size.total (blocks.map Allocation.length)
  heapPointer_le : run.state.heapPointer ≤ layout.stop

/-- A request takes at least as many bytes as it asks for, and at least one. -/
theorem le_heapSlot (size : Word) : max 1 size.toInt ≤ heapSlot size := by
  have hle : (max 1 size.toInt).toNat ≤ heapSlot size := le_roundUp _ (by decide)
  omega

/-- One round leaves the heap as it was, or takes a block that starts where the heap ended. -/
theorem heap_of_round (f : Function) (limit : Option UInt64) (ip : Nat) {s : State} (hs : s.memory.Sound)
    (hle : s.heapPointer ≤ s.memory.layout.stop) :
    (Run.allocation? f limit (.running ip s) = none ∧ (Run.round f limit ip s).state.heapPointer = s.heapPointer) ∨
    ∃ block, Run.allocation? f limit (.running ip s) = some block ∧ block.address.toInt = s.heapPointer ∧
      block.length = heapSlot block.size ∧
      (Run.round f limit ip s).state.heapPointer = s.heapPointer + block.length ∧
      s.heapPointer + block.length ≤ s.memory.layout.stop := by
  rcases round_effect f limit ip hs with ⟨trap, t, hround⟩ | ⟨⟨opcode, operand⟩, words, rest, effect, hdecode, hstack,
    harity, heffect, hround⟩
  · have hnone : Run.allocation? f limit (.running ip s) = none := by
      simp [Run.allocation?, hround]
    refine .inl ⟨hnone, ?_⟩
    rw [hround]
    exact (untouched_of_round hs hround).2.heapPointer
  · by_cases halloc : opcode = .alloc
    · subst halloc
      obtain ⟨size, rfl, hroom, rfl⟩ := effect_alloc harity heffect
      have hword : (addressWord s.heapPointer).toInt = s.heapPointer := by
        apply toInt_addressWord
        have hstop := hs.stop_eq
        have hsize := hs.size_le
        omega
      refine .inr ⟨⟨size, addressWord s.heapPointer, heapSlot size⟩, ?_, hword, rfl, ?_, hroom⟩
      · simp [Run.allocation?, hdecode, hround, Control.resume, hstack]
      · simp [hround]
    · have htaken := (effect_ok (Instruction.wellFormed_of_decodeAt hdecode) harity heffect).2.1 halloc
      have hnone : Run.allocation? f limit (.running ip s) = none := by
        simp [Run.allocation?, hdecode, halloc]
      refine .inl ⟨hnone, ?_⟩
      simp [hround, htaken]

/-- A round keeps the blocks in order, with the one that it takes as the last. -/
theorem Run.HeapLaidOut.round {layout : Layout} {blocks : List Allocation} {ip : Nat} {s : State}
    (h : (Run.running ip s).HeapLaidOut layout blocks) (hs : s.memory.Sound) (hlayout : s.memory.layout = layout)
    (f : Function) (limit : Option UInt64) :
    (Run.round f limit ip s).HeapLaidOut layout (blocks ++ (Run.allocation? f limit (.running ip s)).toList) := by
  subst hlayout
  obtain ⟨hcontiguous, hexact, hlong, hpointer, hle⟩ := h
  dsimp only [Run.state] at hpointer hle
  rcases heap_of_round f limit ip hs hle with ⟨hnone, hsame⟩ | ⟨block, hsome, haddress, hsize, hgrown, hroom⟩
  · rw [hnone, Option.toList_none, List.append_nil]
    exact ⟨hcontiguous, hexact, hlong, by rw [hsame, hpointer], by rw [hsame]; exact hle⟩
  · rw [hsome, Option.toList_some]
    have hstretch : block.stretch = ⟨s.heapPointer, block.length⟩ := by
      simp [Allocation.stretch, Word.index, haddress]
    refine ⟨?_, ?_, ?_, ?_, ?_⟩
    · simp [Stretch.consecutive_append, Stretch.consecutive, hcontiguous, hstretch, hpointer]
    · intro other hother
      rcases List.mem_append.1 hother with hother | hother
      · exact hexact other hother
      · rw [List.mem_singleton.1 hother, hstretch, haddress]
    · intro other hother
      rcases List.mem_append.1 hother with hother | hother
      · exact hlong other hother
      · rw [List.mem_singleton.1 hother, hsize]
        exact le_heapSlot block.size
    · simp [hgrown, hpointer, Nat.add_assoc]
    · rw [hgrown]
      exact hroom

theorem Run.allocations_succ (f : Function) (limit : Option UInt64) (rounds : Nat) (run : Run) :
    Run.allocations f limit (rounds + 1) run =
      Run.allocations f limit rounds run ++ ((Run.advance f limit rounds run).allocation? f limit).toList := by
  rw [Run.allocations, List.range_succ, List.filterMap_append, List.filterMap_cons, List.filterMap_nil]
  cases (Run.advance f limit rounds run).allocation? f limit <;> rfl

/-- However long a run goes on, the blocks that it has taken lie one behind the other. -/
theorem heapLaidOut_advance (f : Function) (limit : Option UInt64) {memory : Memory} (h : memory.Sound)
    (output : Array String) (rounds : Nat) :
    (Run.advance f limit rounds (Run.start f memory output)).HeapLaidOut memory.layout
      (Run.allocations f limit rounds (Run.start f memory output)) := by
  induction rounds with
  | zero =>
    refine ⟨rfl, by simp [Run.allocations], by simp [Run.allocations], ?_, ?_⟩
    · rw [state_advance_zero]
      rfl
    · rw [state_advance_zero]
      exact h.heapStart_le
  | succ rounds ih =>
    rw [Run.advance_succ, Run.allocations_succ]
    cases hrun : Run.advance f limit rounds (Run.start f memory output) with
    | returned s | trapped trap s =>
      rw [hrun] at ih
      simpa [Run.allocation?] using ih
    | running ip s =>
      rw [hrun] at ih
      have hshape := sameShape_of_advance h hrun
      exact ih.round (hshape.sound h) hshape.layout_eq f limit

/-- Requests for no bytes and for less than none get a word each. -/
example :
    let f : Function :=
      { name := "requests", localOffsets := [], localSize := 0, staticData := []
        code := encodeAll [⟨.loadImmediate, .immediate 0⟩, .plain .alloc, ⟨.loadImmediate, .immediate (-3)⟩,
          .plain .alloc] }
    Run.allocations f none 4 (Run.start f (Memory.zeros (.ofSizes 0 8 16)) #[]) = [⟨0, 8, 4⟩, ⟨-3, 12, 4⟩] := by
  decide +kernel

theorem Run.HeapLaidOut.inOrder {layout : Layout} {blocks : List Allocation} {run : Run}
    (h : run.HeapLaidOut layout blocks) :
    Stretch.InOrder layout.heapStart layout.stop (blocks.map Allocation.stretch) := by
  have hblocks := Stretch.inOrder_consecutive layout.heapStart (blocks.map Allocation.length)
  have hpointer := h.heapPointer_eq
  have hle := h.heapPointer_le
  rw [← h.contiguous] at hblocks
  refine ⟨fun stretch hstretch => ?_, hblocks.apart⟩
  obtain ⟨hstart, hend⟩ := hblocks.inside stretch hstretch
  exact ⟨hstart, by omega⟩

/-! ### The room for exchanges -/

theorem Memory.getElem?_move_of_outside {memory : Memory} {source target size : Word} {n : Nat}
    (h : ¬ Stretch.Covers ⟨Word.index target, Word.index size⟩ n) :
    (memory.move source target size).bytes[n]? = memory.bytes[n]? := by
  apply Bytes.getElem?_overwrite_of_outside
  have hlength := Bytes.length_slice memory.bytes (Word.index source) (Word.index size)
  unfold Stretch.Covers at h
  dsimp only at h
  omega

def Memory.SameOutside (stretches : List Stretch) (a b : Memory) : Prop :=
  ∀ n, (∀ stretch ∈ stretches, ¬ stretch.Covers n) → a.bytes[n]? = b.bytes[n]?

/-- An exchange changes only the two stretches and the room that it goes through. -/
theorem Memory.sameOutside_swap {memory : Memory} {scratch : Nat} {first second size : Word}
    (hscratch : scratch ≤ maxWord) :
    Memory.SameOutside
      [⟨scratch, Word.index size⟩, ⟨Word.index first, Word.index size⟩, ⟨Word.index second, Word.index size⟩]
      (memory.swap scratch first second size) memory := by
  intro n hn
  simp only [List.forall_mem_cons] at hn
  obtain ⟨hroom, hfirst, hsecond, -⟩ := hn
  have hindex : Word.index (addressWord scratch) = scratch := by
    rw [Word.index, toInt_addressWord hscratch, Int.toNat_natCast]
  rw [Memory.swap, Memory.getElem?_move_of_outside hsecond, Memory.getElem?_move_of_outside hfirst,
    Memory.getElem?_move_of_outside (by rw [hindex]; exact hroom)]

theorem exchange_of_round {f : Function} (limit : Option UInt64) {ip : Nat} {s : State} {operand : Operand}
    (hs : s.memory.Sound) (hdecode : Instruction.decodeAt f.code ip = .ok ⟨.exchangeBytes, operand⟩) :
    (∃ trap t, Run.round f limit ip s = .trapped trap t) ∨
    ∃ size first second rest t, s.stack.words = size :: first :: second :: rest ∧
      Run.round f limit ip s = .running (ip + 1) t ∧ 0 ≤ size.toInt ∧
      f.stackTop s.memory.layout + Word.index size ≤ s.memory.layout.heapStart ∧
      t.memory = s.memory.swap (f.stackTop s.memory.layout) first second size := by
  rcases round_effect f limit ip hs with hround | ⟨i, words, rest, effect, hi, hstack, harity, heffect, hround⟩
  · exact .inl hround
  · rw [hdecode] at hi
    cases hi
    obtain ⟨size, first, second, rfl, hfirst, -, hroom, rfl⟩ := effect_exchange harity heffect
    exact .inr ⟨size, first, second, rest, _, hstack, hround, hfirst.2.1, hroom, memory_apply _ _⟩

/-- What an exchange may come to from a state, with the room for it from `scratch` on.  It traps and changes nothing, or the
room ends before the heap and nothing is changed outside it and the two stretches. -/
def Run.ExchangesThrough (scratch : Nat) (layout : Layout) (ip : Nat) (s : State) (outcome : Run) : Prop :=
  (∃ trap t, outcome = .trapped trap t ∧ t.memory = s.memory) ∨
  ∃ size first second rest t, s.stack.words = size :: first :: second :: rest ∧ outcome = .running (ip + 1) t ∧
    0 ≤ size.toInt ∧ t.memory = s.memory.swap scratch first second size ∧
    Stretch.Inside ⟨scratch, Word.index size⟩ scratch layout.heapStart ∧
    t.memory.SameOutside
      [⟨scratch, Word.index size⟩, ⟨Word.index first, Word.index size⟩, ⟨Word.index second, Word.index size⟩] s.memory

/-- In every state of a run, an exchange goes through the room behind the frame. -/
theorem exchange_of_advance {f : Function} {limit : Option UInt64} {memory : Memory} (h : memory.Sound)
    {rounds : Nat} {output : Array String} {ip : Nat} {s : State} {operand : Operand}
    (hrun : Run.advance f limit rounds (Run.start f memory output) = .running ip s)
    (hdecode : Instruction.decodeAt f.code ip = .ok ⟨.exchangeBytes, operand⟩) :
    (Run.round f limit ip s).ExchangesThrough (f.stackTop memory.layout) memory.layout ip s := by
  have hshape := sameShape_of_advance h hrun
  have hs := hshape.sound h
  rcases exchange_of_round limit hs hdecode with ⟨trap, t, hround⟩ |
    ⟨size, first, second, rest, t, hstack, hround, hpos, hroom, hswap⟩
  · exact .inl ⟨trap, t, hround, (untouched_of_round hs hround).2.memory⟩
  · rw [hshape.layout_eq] at hroom hswap
    have hscratch : f.stackTop memory.layout ≤ maxWord := by
      have hheap := h.heapStart_le_maxWord
      omega
    refine .inr ⟨size, first, second, rest, t, hstack, hround, hpos, hswap, ⟨Nat.le_refl _, hroom⟩, ?_⟩
    rw [hswap]
    exact Memory.sameOutside_swap hscratch

end StackMachine
