import StackMachine.Proofs.Machine.Exchange

/-!
# Where instructions write

Only stores, copies and exchanges write to memory, and only where the words that they take say (`Opcode.writes`).  Only
two instructions give out a line: one the decimal form of a word, the other the text that a stretch of memory encodes.

The ways in which effects arise say where each one writes (`Arises.sameOutside`), and so give the footprint of a step
(`footprint_of_execute`) and of a round.  By induction over the rounds, a run keeps every byte outside the stretches that
it has written (`sameOutside_advance`).
-/

namespace StackMachine

/-! ### Decimal text -/

private theorem zeroPadded_eq_toString {width : Nat} (h : width ≤ 1) (n : Nat) : zeroPadded width n = toString n := by
  have hpos : 0 < (Nat.toDigits 10 n).length := Nat.length_toDigits_pos
  have hpad : (Nat.toDigits 10 n).leftpad width '0' = Nat.toDigits 10 n := by
    rw [List.leftpad, Nat.sub_eq_zero_of_le (by omega)]
    rfl
  rw [zeroPadded, hpad]
  rfl

theorem decimal_eq_toString (z : Int) : decimal z = toString z := by
  unfold decimal zeroPaddedInt
  cases z with
  | ofNat n =>
    rw [if_neg (by simp), zeroPadded_eq_toString (Nat.le_refl 1)]
    rfl
  | negSucc n =>
    rw [if_pos (Int.negSucc_lt_zero n), zeroPadded_eq_toString (Nat.zero_le 1)]
    rfl

/-! ### Instructions that leave a trace -/

/-- The stretches that an instruction writes, with the words that stand on the operand stack before it. -/
def Opcode.writes (f : Function) (layout : Layout) : Opcode → List Word → List Stretch
  | .storeInteger, _ :: address :: _ => [⟨Word.index address, wordSize⟩]
  | .storePointer, _ :: address :: _ => [⟨Word.index address, wordSize⟩]
  | .copyBytes, size :: target :: _ => [⟨Word.index target, Word.index size⟩]
  | .exchangeBytes, size :: first :: second :: _ =>
    [⟨f.stackTop layout, Word.index size⟩, ⟨Word.index first, Word.index size⟩, ⟨Word.index second, Word.index size⟩]
  | _, _ => []

def Opcode.writesMemory : Opcode → Bool
  | .storeInteger | .storePointer | .copyBytes | .exchangeBytes => true
  | _ => false

def Opcode.givesLine : Opcode → Bool
  | .output | .outputString => true
  | _ => false

/-! ### The footprint of a step -/

theorem Memory.SameOutside.refl (stretches : List Stretch) (memory : Memory) : memory.SameOutside stretches memory :=
  fun _ _ => rfl

/-- What is kept outside some stretches and then outside others is kept outside all of them. -/
theorem Memory.SameOutside.trans {first second : List Stretch} {before middle after : Memory}
    (hsecond : after.SameOutside second middle) (hfirst : middle.SameOutside first before) :
    after.SameOutside (first ++ second) before := by
  intro n hn
  rw [hsecond n fun stretch hstretch => hn stretch (List.mem_append_right _ hstretch),
    hfirst n fun stretch hstretch => hn stretch (List.mem_append_left _ hstretch)]

/-- An effect writes only where the words that it has taken say; those below them do not matter. -/
theorem Arises.sameOutside {f : Function} {memory : Memory} (hs : memory.Sound) {heapPointer : Nat} {i : Instruction}
    {words : List Word} {effect : Effect} (h : Arises f memory heapPointer i words effect) (rest : List Word) :
    effect.memory.SameOutside (i.opcode.writes f memory.layout (words ++ rest)) memory := by
  intro n hn
  cases h with
  | storesInteger _ hstore | storesPointer _ hstore =>
    obtain ⟨-, rfl⟩ := Memory.store_ok hstore
    exact Memory.getElem?_put_of_outside (hn _ List.mem_cons_self)
  | copies _ hcopy =>
    obtain ⟨-, -, rfl⟩ := Memory.copy_ok hcopy
    exact Memory.getElem?_move_of_outside (hn _ List.mem_cons_self)
  | exchanges _ _ _ hroom =>
    have hscratch : f.stackTop memory.layout ≤ maxWord := by
      have hheap := hs.heapStart_le_maxWord
      omega
    exact Memory.sameOutside_swap hscratch n hn
  | halts | jumps | pushes | allocates | outputsText | outputsWord => rfl

/-- What a step that goes through may change in memory, and what it gives out. -/
structure Instruction.Footprint (f : Function) (i : Instruction) (s t : State) : Prop where
  shape : t.memory.SameShape s.memory
  written : t.memory.SameOutside (i.opcode.writes f s.memory.layout s.stack.words) s.memory
  untouched : i.opcode.writesMemory = false → t.memory = s.memory
  output : i.opcode = .output →
    ∃ value rest, s.stack.words = value :: rest ∧ t.output = s.output.push (toString value.toInt)
  /-- The line has exactly the bytes of the stretch. -/
  outputString : i.opcode = .outputString →
    ∃ size address rest text, s.stack.words = size :: address :: rest ∧
      s.memory.slice address size = .ok (encodeUtf8 text) ∧ t.output = s.output.push text
  silent : i.opcode.givesLine = false → t.output = s.output

theorem output_apply (effect : Effect) (s : State) : (effect.apply s).output = s.output ++ effect.line.toArray := by
  have hpush : ∀ (words : List Word) (s : State), (words.foldl State.push s).output = s.output := by
    intro words
    induction words with
    | nil => exact fun _ => rfl
    | cons word words ih => exact fun s => ih (s.push word)
  rw [Effect.apply, hpush]
  cases effect.line with
  | none => simp
  | some line => simp

theorem footprint_of_execute {f : Function} {i : Instruction} (hwf : i.WellFormed) {s t : State} (hs : s.memory.Sound)
    {control : Control} (h : i.execute f s = .ok control t) : i.Footprint f s t := by
  obtain ⟨words, rest, effect, hstack, harity, heffect, -, rfl⟩ := execute_ok hwf hs h
  have hshape := (effect_ok hwf harity heffect).1
  have harises := arises_of_effect hwf harity heffect
  have hsame := harises.sameOutside hs rest
  obtain ⟨opcode, operand⟩ := i
  constructor
  case shape => rwa [memory_apply]
  case written => rwa [memory_apply, hstack]
  case untouched =>
    intro hwrites
    rw [memory_apply]
    cases harises with
    | storesInteger | storesPointer | copies | exchanges => cases hwrites
    | halts | jumps | pushes | allocates | outputsText | outputsWord => rfl
  case output =>
    rintro rfl
    cases harises with
    | jumps _ hquiet | pushes _ hquiet => cases hquiet
    | outputsWord _ value =>
      refine ⟨value, rest, hstack, ?_⟩
      rw [output_apply, ← decimal_eq_toString]
      simp
  case outputString =>
    rintro rfl
    cases harises with
    | jumps _ hquiet | pushes _ hquiet => cases hquiet
    | outputsText _ hslice =>
      refine ⟨_, _, rest, _, hstack, hslice, ?_⟩
      rw [output_apply]
      simp
  case silent =>
    intro hsilent
    rw [output_apply]
    cases harises with
    | outputsText | outputsWord => cases hsilent
    | halts | jumps | pushes | storesInteger | storesPointer | copies | exchanges | allocates => simp

/-! ### The footprint of a run -/

/-- The stretches that the next round of a run writes. -/
def Run.writes (f : Function) (limit : Option UInt64) : Run → List Stretch
  | .running ip s =>
    match Instruction.decodeAt f.code ip, Run.round f limit ip s with
    | .error _, _ | _, .trapped _ _ => []
    | .ok i, _ => i.opcode.writes f s.memory.layout s.stack.words
  | _ => []

/-- The stretches that a run writes in a number of rounds. -/
def Run.footprint (f : Function) (limit : Option UInt64) (rounds : Nat) (run : Run) : List Stretch :=
  (List.range rounds).flatMap fun done => (Run.advance f limit done run).writes f limit

theorem Run.footprint_succ (f : Function) (limit : Option UInt64) (rounds : Nat) (run : Run) :
    Run.footprint f limit (rounds + 1) run =
      Run.footprint f limit rounds run ++ (Run.advance f limit rounds run).writes f limit := by
  rw [Run.footprint, List.range_succ, List.flatMap_append, List.flatMap_singleton]
  rfl

theorem sameOutside_round (f : Function) (limit : Option UInt64) (ip : Nat) {s : State} (hs : s.memory.Sound) :
    (Run.round f limit ip s).state.memory.SameOutside (Run.writes f limit (.running ip s)) s.memory := by
  rcases round_effect f limit ip hs with ⟨trap, t, hround⟩ |
    ⟨i, words, rest, effect, hdecode, hstack, harity, heffect, hround⟩
  · rw [hround]
    have huntouched := (untouched_of_round hs hround).2.memory
    exact fun n _ => congrArg (fun memory => memory.bytes[n]?) huntouched
  · have hwrites : Run.writes f limit (.running ip s) = i.opcode.writes f s.memory.layout s.stack.words := by
      dsimp only [Run.writes]
      rw [hdecode, hround]
      cases effect.control <;> rfl
    have harises := arises_of_effect (Instruction.wellFormed_of_decodeAt hdecode) harity heffect
    rw [hwrites, hround, state_resume, memory_apply, hstack]
    exact harises.sameOutside hs rest

/-- However long a run goes on, it changes no byte outside the stretches that its instructions write. -/
theorem sameOutside_advance (f : Function) (limit : Option UInt64) {memory : Memory} (h : memory.Sound)
    (output : Array String) (rounds : Nat) :
    (Run.advance f limit rounds (Run.start f memory output)).state.memory.SameOutside
      (Run.footprint f limit rounds (Run.start f memory output)) memory := by
  induction rounds with
  | zero =>
    rw [state_advance_zero]
    exact Memory.SameOutside.refl _ _
  | succ rounds ih =>
    rw [Run.advance_succ, Run.footprint_succ]
    cases hrun : Run.advance f limit rounds (Run.start f memory output) with
    | returned s | trapped trap s =>
      -- a run that has ended stays as it is and writes nothing more
      rw [hrun] at ih
      simpa [Run.writes] using ih
    | running ip s =>
      rw [hrun] at ih
      exact (sameOutside_round f limit ip (sound_of_advance h hrun)).trans ih

/-- In every state that a run over linked memory can come to, a step that goes through has its footprint and no other; and
the run keeps every byte outside the footprints of its steps. -/
theorem Loader.Reached.run_footprint {loader : Loader} (h : loader.Reached) {image : Image}
    (hlink : loader.link = .ok image) {memory : Memory} (hmemory : memory.SameShape image.memory) (g : Function)
    (limit : Option UInt64) (output : Array String) :
    (∀ rounds ip s, Run.advance g limit rounds (Run.start g memory output) = .running ip s →
      ∀ i : Instruction, i.WellFormed → ∀ control t, i.execute g s.count = .ok control t →
        i.Footprint g s.count t) ∧
    ∀ rounds, (Run.advance g limit rounds (Run.start g memory output)).state.memory.SameOutside
      (Run.footprint g limit rounds (Run.start g memory output)) memory := by
  have hsound : memory.Sound := hmemory.sound (h.consistent.sound_of_link hlink)
  refine ⟨fun rounds ip s hrun i hwf control t hexecute => ?_, sameOutside_advance g limit hsound output⟩
  have hs : s.memory.Sound := sound_of_advance hsound hrun
  exact footprint_of_execute (s := s.count) hwf hs hexecute

/-- Stores a word across two words of the static data. -/
def scribble : Function :=
  { name := "scribble", localOffsets := [], localSize := 0, staticData := []
    code := encodeAll [⟨.loadImmediate, .immediate 2⟩, ⟨.loadImmediate, .immediate (-1)⟩, .plain .storeInteger] }

theorem Loader.Reached.run_footprint_scribble :
    ∃ image s t, greetingLoader.link = .ok image ∧
      Run.advance scribble none 2 (Run.start scribble image.memory #[]) = .running 10 s ∧
      (Instruction.plain .storeInteger).execute scribble s.count = .ok .next t ∧
      t.memory.SameOutside [⟨2, 4⟩] s.memory ∧ t.output = s.output ∧
      ∀ rounds, (Run.advance scribble none rounds (Run.start scribble image.memory #[])).state.memory.SameOutside
        (Run.footprint scribble none rounds (Run.start scribble image.memory #[])) image.memory := by
  obtain ⟨image, hlink, hlayout, -⟩ := exists_start_greeting
  obtain ⟨hstep, hwhole⟩ := reached_greetingLoader.run_footprint hlink (Memory.SameShape.refl _) scribble none #[]
  have hsound := reached_greetingLoader.consistent.sound_of_link hlink
  have hframe : scribble.stackTop image.memory.layout ≤ image.memory.layout.heapStart := by
    rw [hlayout]
    decide
  obtain ⟨s, hrun, hstack, hmemory⟩ : ∃ s, Run.advance scribble none 2 (Run.start scribble image.memory #[]) =
      .running 10 s ∧ s.stack.words = [-1, 2] ∧ s.memory = image.memory := by
    rw [Run.start, if_pos hframe]
    exact ⟨_, rfl, rfl, rfl⟩
  have hholds : image.memory.Holds 2 wordLength := by
    have hsize : image.memory.bytes.size = 4096 := by
      rw [← hsound.stop_eq, hlayout]
      rfl
    exact ⟨by decide, by decide, by rw [hsize]; decide⟩
  obtain ⟨t, hexecute⟩ : ∃ t, (Instruction.plain .storeInteger).execute scribble s.count = .ok .next t := by
    have hstore : s.count.memory.store 2 (-1) = .ok (s.count.memory.put 2 (-1)) := by
      rw [Memory.store_eq, if_pos (show s.count.memory.Holds 2 wordLength from hmemory ▸ hholds)]
    have hwords : s.count.stack.words = [-1, 2] ++ [] := hstack
    rw [execute_of_words scribble (i := .plain .storeInteger) rfl (hmemory ▸ hsound) hwords rfl]
    unfold Instruction.effect
    dsimp only [Instruction.plain]
    rw [hstore]
    exact ⟨_, rfl⟩
  have hfootprint := hstep 2 10 s hrun (.plain .storeInteger) rfl .next t hexecute
  have hwritten := hfootprint.written
  rw [show s.count.stack.words = [-1, 2] from hstack] at hwritten
  exact ⟨image, s, t, hlink, hrun, hexecute, hwritten, hfootprint.silent rfl, hwhole⟩

end StackMachine
