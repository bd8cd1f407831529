import StackMachine.Proofs.Machine.Access

/-!
# Exchanging two stretches

An exchange copies the first stretch to the room behind the frame, the second over the first, and the room over the
second.  As long as neither stretch meets the stack behind the frame, the three copies amount to `Memory.Swapped`: the
second stretch has the old bytes of the first, and the first those of the second, except where the two overlap and the
last copy has won.

`Memory.exchange_error_iff` says when an exchange fails, for stretches that lie anywhere.
-/

namespace StackMachine

/-- The stack behind the frame of a function. -/
def Function.freeStack (f : Function) (layout : Layout) : Stretch :=
  ⟨f.stackTop layout, layout.heapStart - f.stackTop layout⟩

/-- The memory after two stretches of `size` bytes were exchanged through the room from `scratch` on. -/
structure Memory.Swapped (before : Memory) (scratch : Nat) (first second size : Word) (after : Memory) : Prop where
  shape : after.SameShape before
  second_eq : ∀ k, k < Word.index size → after.bytes[Word.index second + k]? = before.bytes[Word.index first + k]?
  /-- Where the stretches overlap, the second one has its way. -/
  first_eq : ∀ k, k < Word.index size →
    ¬ Stretch.Covers ⟨Word.index second, Word.index size⟩ (Word.index first + k) →
    after.bytes[Word.index first + k]? = before.bytes[Word.index second + k]?
  scratch_eq : ∀ k, k < Word.index size → after.bytes[scratch + k]? = before.bytes[Word.index first + k]?
  elsewhere : after.SameOutside
    [⟨scratch, Word.index size⟩, ⟨Word.index first, Word.index size⟩, ⟨Word.index second, Word.index size⟩] before

/-! ### The three copies -/

theorem index_addressWord {offset : Nat} (h : offset ≤ maxWord) : Word.index (addressWord offset) = offset := by
  rw [Word.index, toInt_addressWord h, Int.toNat_natCast]

/-- The copies of an exchange, if neither stretch meets the room that they go through. -/
theorem Memory.swapped_swap {memory : Memory} (h : memory.Sound) {scratch : Nat} {first second size : Word}
    (hfirst : memory.Holds first size) (hsecond : memory.Holds second size)
    (hroom : scratch + Word.index size ≤ memory.layout.heapStart)
    (hfirstApart : Stretch.Apart ⟨Word.index first, Word.index size⟩ ⟨scratch, Word.index size⟩)
    (hsecondApart : Stretch.Apart ⟨Word.index second, Word.index size⟩ ⟨scratch, Word.index size⟩) :
    memory.Swapped scratch first second size (memory.swap scratch first second size) := by
  have hscratch := h.holds_addressWord hfirst.2.1 hroom
  have hmax : scratch ≤ maxWord := by
    have hheap := h.heapStart_le_maxWord
    omega
  have hindex := index_addressWord hmax
  let m₁ := memory.move first (addressWord scratch) size
  let m₂ := m₁.move second first size
  have hshape₁ : m₁.SameShape memory := Memory.sameShape_move _ _ _ _
  have hshape₂ : m₂.SameShape memory := (Memory.sameShape_move _ _ _ _).trans hshape₁
  have hswap : memory.swap scratch first second size = m₂.move (addressWord scratch) second size := rfl
  have hcopy₁ : ∀ k, k < Word.index size → m₁.bytes[scratch + k]? = memory.bytes[Word.index first + k]? := by
    intro k hk
    have hinside := Memory.getElem?_move_of_inside hfirst hscratch hk
    rwa [hindex] at hinside
  have hkept₁ : ∀ n, ¬ Stretch.Covers ⟨scratch, Word.index size⟩ n → m₁.bytes[n]? = memory.bytes[n]? := by
    intro n hn
    exact Memory.getElem?_move_of_outside (by rw [hindex]; exact hn)
  have hcopy₂ : ∀ k, k < Word.index size → m₂.bytes[Word.index first + k]? = m₁.bytes[Word.index second + k]? :=
    fun k hk => Memory.getElem?_move_of_inside ((hshape₁.holds_iff _ _).2 hsecond) ((hshape₁.holds_iff _ _).2 hfirst) hk
  have hcopy₃ : ∀ k, k < Word.index size →
      (memory.swap scratch first second size).bytes[Word.index second + k]? = m₂.bytes[scratch + k]? := by
    intro k hk
    have hinside := Memory.getElem?_move_of_inside ((hshape₂.holds_iff _ _).2 hscratch)
      ((hshape₂.holds_iff _ _).2 hsecond) hk
    rwa [hindex] at hinside
  -- the second copy does not touch the room
  have hheld : ∀ k, k < Word.index size → m₂.bytes[scratch + k]? = memory.bytes[Word.index first + k]? := by
    intro k hk
    rw [← hcopy₁ k hk]
    exact Memory.getElem?_move_of_outside fun hfirst => hfirstApart _ ⟨hfirst, Stretch.covers_add scratch hk⟩
  constructor
  case shape => exact memory.sameShape_swap _ _ _ _
  case second_eq =>
    intro k hk
    rw [hcopy₃ k hk, hheld k hk]
  case first_eq =>
    intro k hk houtside
    have hlast : (memory.swap scratch first second size).bytes[Word.index first + k]? =
        m₂.bytes[Word.index first + k]? := Memory.getElem?_move_of_outside houtside
    rw [hlast, hcopy₂ k hk]
    exact hkept₁ _ fun hroom => hsecondApart _ ⟨Stretch.covers_add _ hk, hroom⟩
  case scratch_eq =>
    intro k hk
    rw [← hheld k hk]
    exact Memory.getElem?_move_of_outside fun hsecond => hsecondApart _ ⟨hsecond, Stretch.covers_add scratch hk⟩
  case elsewhere => exact Memory.sameOutside_swap hmax

/-- Stretches that do not overlap have changed places. -/
theorem Memory.Swapped.slice_of_apart {before after : Memory} {scratch : Nat} {first second size : Word}
    (h : before.Swapped scratch first second size after)
    (hapart : Stretch.Apart ⟨Word.index first, Word.index size⟩ ⟨Word.index second, Word.index size⟩) :
    after.bytes.slice (Word.index first) (Word.index size) = before.bytes.slice (Word.index second) (Word.index size) ∧
    after.bytes.slice (Word.index second) (Word.index size) = before.bytes.slice (Word.index first) (Word.index size) := by
  refine ⟨Bytes.slice_ext fun k hk => h.first_eq k hk fun hcovers => ?_, Bytes.slice_ext h.second_eq⟩
  exact hapart _ ⟨Stretch.covers_add _ hk, hcovers⟩

/-! ### When an exchange fails -/

theorem Memory.exchange_error_iff {memory : Memory} {scratch : Nat} {first second size : Word} {fault : Fault} :
    memory.exchange scratch first second size = .error fault ↔
      (¬ memory.Holds first size ∧ fault = .memoryOutOfBounds first size) ∨
      (memory.Holds first size ∧ ¬ memory.Holds second size ∧ fault = .memoryOutOfBounds second size) ∨
      (memory.Holds first size ∧ memory.Holds second size ∧
        memory.layout.heapStart < scratch + Word.index size ∧ fault = .stackOverflow) := by
  unfold Memory.exchange
  by_cases hfirst : memory.Holds first size
  · by_cases hsecond : memory.Holds second size
    · by_cases hroom : memory.layout.heapStart < scratch + Word.index size
      · simp [hfirst, hsecond, hroom, eq_comm]
      · simp [hfirst, hsecond, hroom]
    · simp [hfirst, hsecond, eq_comm]
  · simp [hfirst, eq_comm]

theorem Memory.exchange_of_holds {memory : Memory} {scratch : Nat} {first second size : Word}
    (hfirst : memory.Holds first size) (hsecond : memory.Holds second size)
    (hroom : scratch + Word.index size ≤ memory.layout.heapStart) :
    memory.exchange scratch first second size = .ok (memory.swap scratch first second size) := by
  rw [Memory.exchange, if_neg (not_not_intro hfirst), if_neg (not_not_intro hsecond), if_neg (Nat.not_lt.2 hroom)]

/-- Carrying out an exchange takes three words and leaves the memory that `Memory.exchange` describes. -/
theorem execute_exchange (f : Function) {s : State} (hs : s.memory.Sound) {size first second : Word}
    {rest : List Word} (hstack : s.stack.words = size :: first :: second :: rest) :
    (Instruction.plain .exchangeBytes).execute f s =
      match s.memory.exchange (f.stackTop s.memory.layout) first second size with
      | .ok memory => .ok .next { s with memory, stack := .ofWords rest }
      | .error fault => .error fault { s with stack := .ofWords rest } := by
  have hwords : s.stack.words = [size, first, second] ++ rest := hstack
  have hexecute := execute_of_words f (i := .plain .exchangeBytes) rfl hs hwords rfl
  rw [hexecute]
  unfold Instruction.effect
  dsimp only [Instruction.plain]
  cases s.memory.exchange (f.stackTop s.memory.layout) first second size <;> rfl

/-! ### Exchanges in a run -/

/-- What an exchange comes to from a state, with the words that it takes off the operand stack there. -/
structure State.ExchangesExactly (f : Function) (s : State) : Prop where
  swapped : ∀ size first second rest, s.stack.words = size :: first :: second :: rest →
    s.memory.Holds first size → s.memory.Holds second size →
    f.stackTop s.memory.layout + Word.index size ≤ s.memory.layout.heapStart →
    Stretch.Apart ⟨Word.index first, Word.index size⟩ (f.freeStack s.memory.layout) →
    Stretch.Apart ⟨Word.index second, Word.index size⟩ (f.freeStack s.memory.layout) →
    ∃ memory, (Instruction.plain .exchangeBytes).execute f s = .ok .next { s with memory, stack := .ofWords rest } ∧
      s.memory.Swapped (f.stackTop s.memory.layout) first second size memory ∧
      (Stretch.Apart ⟨Word.index first, Word.index size⟩ ⟨Word.index second, Word.index size⟩ →
        memory.bytes.slice (Word.index first) (Word.index size) =
            s.memory.bytes.slice (Word.index second) (Word.index size) ∧
          memory.bytes.slice (Word.index second) (Word.index size) =
            s.memory.bytes.slice (Word.index first) (Word.index size)) ∧
      (first = second → memory.bytes.slice (Word.index first) (Word.index size) =
        s.memory.bytes.slice (Word.index first) (Word.index size))
  /-- Also for stretches that meet the stack behind the frame. -/
  trapped : ∀ size first second rest, s.stack.words = size :: first :: second :: rest → ∀ fault,
    (∃ t, (Instruction.plain .exchangeBytes).execute f s = .error fault t) ↔
      (¬ s.memory.Holds first size ∧ fault = .memoryOutOfBounds first size) ∨
      (s.memory.Holds first size ∧ ¬ s.memory.Holds second size ∧ fault = .memoryOutOfBounds second size) ∨
      (s.memory.Holds first size ∧ s.memory.Holds second size ∧
        s.memory.layout.heapStart < f.stackTop s.memory.layout + Word.index size ∧ fault = .stackOverflow)

/-- The room of an exchange is part of the stack behind the frame. -/
theorem Stretch.Apart.of_freeStack {f : Function} {layout : Layout} {length : Nat} {stretch : Stretch}
    (h : stretch.Apart (f.freeStack layout)) (hroom : f.stackTop layout + length ≤ layout.heapStart) :
    stretch.Apart ⟨f.stackTop layout, length⟩ := by
  rintro n ⟨hstretch, hlower, hupper⟩
  refine h n ⟨hstretch, hlower, ?_⟩
  dsimp only [Function.freeStack] at hupper ⊢
  omega

theorem State.exchangesExactly_of_sound (f : Function) {s : State} (hs : s.memory.Sound) : s.ExchangesExactly f := by
  constructor
  · intro size first second rest hstack hfirst hsecond hroom hfirstApart hsecondApart
    have hswapped := Memory.swapped_swap hs hfirst hsecond hroom (hfirstApart.of_freeStack hroom)
      (hsecondApart.of_freeStack hroom)
    refine ⟨s.memory.swap (f.stackTop s.memory.layout) first second size, ?_, hswapped, hswapped.slice_of_apart, ?_⟩
    · rw [execute_exchange f hs hstack, Memory.exchange_of_holds hfirst hsecond hroom]
    · rintro rfl
      exact Bytes.slice_ext hswapped.second_eq
  · intro size first second rest hstack fault
    rw [execute_exchange f hs hstack, ← Memory.exchange_error_iff]
    cases s.memory.exchange (f.stackTop s.memory.layout) first second size with
    | ok memory => simp
    | error other => simp

/-- In every state that a run over linked memory can come to, and whatever words an exchange finds there, it swaps the two
stretches exactly, or fails for the first of its reasons. -/
theorem Loader.Reached.exchangesExactly {loader : Loader} (h : loader.Reached) {image : Image}
    (hlink : loader.link = .ok image) {memory : Memory} (hmemory : memory.SameShape image.memory) {g : Function}
    {limit : Option UInt64} {rounds : Nat} {output : Array String} {ip : Nat} {s : State}
    (hrun : Run.advance g limit rounds (Run.start g memory output) = .running ip s) (stack : OperandStack) :
    State.ExchangesExactly g { s.count with stack } := by
  have hsound : memory.Sound := hmemory.sound (h.consistent.sound_of_link hlink)
  have hs : s.memory.Sound := sound_of_advance hsound hrun
  exact State.exchangesExactly_of_sound g hs

/-- The run of the greeting gets its frame. -/
theorem exists_start_greeting :
    ∃ image, greetingLoader.link = .ok image ∧ image.memory.layout = .ofSizes 1024 1024 2048 ∧
      Run.advance (greetingLoader.linked greeting) none 0
        (Run.start (greetingLoader.linked greeting) image.memory #[]) = .running 0 (.initial image.memory #[]) := by
  obtain ⟨image, hlink⟩ := exists_link_greetingLoader
  have hlayout : image.memory.layout = .ofSizes 1024 1024 2048 := by
    have hconfig : greetingLoader.config = {} := Loader.config_load {} greeting
    have hsize : greetingLoader.staticDataSize = 4 := by decide +kernel
    rw [(reached_greetingLoader.consistent.placement hlink).layout, hconfig, hsize]
    decide
  have hframe : (greetingLoader.linked greeting).stackTop (.ofSizes 1024 1024 2048) = 1028 := rfl
  refine ⟨image, hlink, hlayout, ?_⟩
  rw [Run.start, hlayout, hframe, if_pos (by decide)]
  rfl

theorem Loader.Reached.exchangesExactly_greeting :
    ∃ image g s memory t, greetingLoader.link = .ok image ∧
      Run.advance g none 0 (Run.start g image.memory #[]) = .running 0 s ∧
      (Instruction.plain .exchangeBytes).execute g { s.count with stack := .ofWords [2, 0, 1] } =
        .ok .next { s.count with memory, stack := .ofWords [] } ∧
      s.memory.Swapped (g.stackTop s.memory.layout) 0 1 2 memory ∧
      (Instruction.plain .exchangeBytes).execute g { s.count with stack := .ofWords [-1, 0, 1] } =
        .error (.memoryOutOfBounds 0 (-1)) t := by
  obtain ⟨image, hlink, hlayout, hrun⟩ := exists_start_greeting
  have hsize : image.memory.bytes.size = 4096 := by
    rw [← (reached_greetingLoader.consistent.sound_of_link hlink).stop_eq, hlayout]
    rfl
  have hholds : ∀ address length : Word, 0 ≤ address.toInt → 0 ≤ length.toInt → address.toInt + length.toInt ≤ 4096 →
      image.memory.Holds address length := by
    intro address length haddress hlength hend
    exact ⟨haddress, hlength, by omega⟩
  have hexact := fun stack =>
    reached_greetingLoader.exchangesExactly hlink (Memory.SameShape.refl _) hrun stack
  -- both stretches lie in the static data
  have hfree : (greetingLoader.linked greeting).freeStack image.memory.layout = ⟨1028, 1020⟩ := by
    rw [hlayout]
    rfl
  have hapart : ∀ start, start + 2 ≤ 1028 →
      Stretch.Apart ⟨start, 2⟩ ((greetingLoader.linked greeting).freeStack image.memory.layout) := by
    rintro start hstart n ⟨⟨-, hupper⟩, hlower, -⟩
    rw [hfree] at hlower
    dsimp only at hupper hlower
    omega
  obtain ⟨memory, hexecute, hswapped, -, -⟩ := (hexact (.ofWords [2, 0, 1])).swapped 2 0 1 [] rfl
    (hholds 0 2 (by decide) (by decide) (by decide)) (hholds 1 2 (by decide) (by decide) (by decide))
    (by rw [show (State.initial image.memory #[]).count.memory = image.memory from rfl, hlayout]; decide)
    (hapart 0 (by decide)) (hapart 1 (by decide))
  have hnegative : ¬ image.memory.Holds 0 (-1) := fun h => absurd h.2.1 (by decide)
  obtain ⟨t, ht⟩ := ((hexact (.ofWords [-1, 0, 1])).trapped (-1) 0 1 [] rfl _).2 (.inl ⟨hnegative, rfl⟩)
  exact ⟨image, _, _, memory, t, hlink, hrun, hexecute, hswapped, ht⟩

end StackMachine
