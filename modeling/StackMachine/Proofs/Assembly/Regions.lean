import StackMachine.Proofs.Assembly.Simulation
import StackMachine.Proofs.Machine.Heap
import StackMachine.Proofs.Machine.Soundness

/-!
# Regions of a run

Nothing checks at run time that locals, heap blocks and static blocks keep apart.  They do so because each kind has a
region of its own: static blocks end before the stack starts, the locals fill the frame from there on, an exchange uses
what is left of the stack behind the frame, and the heap starts where the stack ends (`Loader.KeepsApart`).  Inside their
region the stretches of a kind lie one behind the other.

`Builder.keepsApart_of_link` says this of every run that has got its frame, with the sizes of the locals as the builder
declares them.
-/

namespace StackMachine

/-- Where locals of the given sizes are. -/
def Layout.slots (layout : Layout) (sizes : List Nat) : List Stretch :=
  Stretch.consecutive layout.stackStart sizes

/-- Where the static blocks of a loader are. -/
def Loader.blockStretches (loader : Loader) : List Stretch :=
  loader.blocks.zipIdx.map fun (block, k) => ⟨loader.address k, block.data.size⟩

/-- What runs of `g` from `start` keep apart in memory with the given layout.  The locals of `g` have the given sizes. -/
structure Loader.KeepsApart (loader : Loader) (image : Image) (sizes : List Nat) (g : Function) (limit : Option UInt64)
    (layout : Layout) (start : Run) : Prop where
  /-- Each local starts at its offset in the frame. -/
  offsets : ∀ k : Nat, g.localOffsets[k]?.map (fun offset => layout.stackStart + offset.toNat) =
    (layout.slots sizes)[k]?.map Stretch.start
  /-- The address of a local is pushed as it is. -/
  localAddress : ∀ rounds ip s index, Run.advance g limit rounds start = .running ip s →
    s.reachedLimit limit = false → Instruction.decodeAt g.code ip = .ok ⟨.loadLocalAddress, .localIndex index⟩ →
    ∃ (slot : Stretch) (address : Word) (t : State), (layout.slots sizes)[index.toNat]? = some slot ∧
      address.toInt = slot.start ∧ Run.round g limit ip s = .running (ip + 2) t ∧ t.stack.words = address :: s.stack.words
  locals : Stretch.InOrder layout.stackStart (g.stackTop layout) (layout.slots sizes)
  exchange : ∀ rounds ip s operand, Run.advance g limit rounds start = .running ip s →
    Instruction.decodeAt g.code ip = .ok ⟨.exchangeBytes, operand⟩ →
    (Run.round g limit ip s).ExchangesThrough (g.stackTop layout) layout ip s
  /-- The blocks that are taken from the heap lie one behind the other. -/
  heap : ∀ rounds, (Run.advance g limit rounds start).HeapLaidOut layout (Run.allocations g limit rounds start)
  heap_inOrder : ∀ rounds, Stretch.InOrder layout.heapStart layout.stop
    ((Run.allocations g limit rounds start).map Allocation.stretch)
  /-- The image holds each static block in its stretch. -/
  held : ∀ (k : Nat) (block : Block), loader.blocks[k]? = some block →
    ∃ stretch, loader.blockStretches[k]? = some stretch ∧ stretch.length = block.data.size ∧
      ∀ n, n < block.data.size → image.memory.bytes[stretch.start + n]? = block.data[n]?
  statics : Stretch.InOrder 0 layout.stackStart loader.blockStretches
  /-- No byte belongs to two of them all. -/
  apart : ∀ rounds scratch, scratch.Inside (g.stackTop layout) layout.heapStart →
    Stretch.InOrder 0 layout.stop (loader.blockStretches ++ (layout.slots sizes ++
      ([scratch] ++ (Run.allocations g limit rounds start).map Allocation.stretch)))

/-! ### Static blocks -/

theorem Loader.getElem?_blockStretches (loader : Loader) (k : Nat) :
    loader.blockStretches[k]? = loader.blocks[k]?.map fun block => ⟨loader.address k, block.data.size⟩ := by
  simp [Loader.blockStretches, List.getElem?_zipIdx, Option.map_map, Function.comp_def]

theorem Loader.Consistent.inOrder_blockStretches {loader : Loader} (h : loader.Consistent) {image : Image}
    (hlink : loader.link = .ok image) :
    Stretch.InOrder 0 image.memory.layout.stackStart loader.blockStretches := by
  have hplacement := h.placement hlink
  constructor
  · intro stretch hstretch
    obtain ⟨k, hk⟩ := List.mem_iff_getElem?.1 hstretch
    rw [loader.getElem?_blockStretches] at hk
    obtain ⟨block, hblock, rfl⟩ := Option.map_eq_some_iff.1 hk
    exact ⟨Nat.zero_le _, Nat.le_trans (hplacement.written k block hblock) hplacement.inside⟩
  · rw [List.pairwise_iff_getElem]
    intro j k hj hk hjk
    have hgetj := List.getElem?_eq_getElem hj
    have hgetk := List.getElem?_eq_getElem hk
    rw [loader.getElem?_blockStretches] at hgetj hgetk
    obtain ⟨block, hblock, hstretch⟩ := Option.map_eq_some_iff.1 hgetj
    obtain ⟨_, -, hother⟩ := Option.map_eq_some_iff.1 hgetk
    have hslot := hplacement.disjoint j k block hblock hjk
    have hsize := h.size_le_slotSize block
    rw [← hstretch, ← hother]
    unfold Stretch.Before
    dsimp only
    omega

/-! ### Locals -/

/-- A round that loads the address of a local pushes where the frame has it. -/
theorem localAddress_of_round {f : Function} {limit : Option UInt64} {ip : Nat} {s : State} {index : UInt8}
    {offset : UInt32} (hlimit : s.reachedLimit limit = false)
    (hdecode : Instruction.decodeAt f.code ip = .ok ⟨.loadLocalAddress, .localIndex index⟩)
    (hoffset : f.localOffsets[index.toNat]? = some offset) :
    ∃ t, Run.round f limit ip s = .running (ip + 2) t ∧
      t.stack.words = addressWord (s.memory.layout.stackStart + offset.toNat) :: s.stack.words := by
  have hlocal : Action.localAddress f index s.count =
      .ok (addressWord (s.memory.layout.stackStart + offset.toNat)) s.count := by
    rw [Action.localAddress_apply, hoffset]
    rfl
  have hexecute : (Instruction.mk .loadLocalAddress (.localIndex index)).execute f s.count =
      .ok .next (s.count.push (addressWord (s.memory.layout.stackStart + offset.toNat))) := by
    show (Action.localAddress f index >>= _) s.count = _
    rw [Action.bind_of_ok hlocal]
    rfl
  rcases round_cases f limit ip s with ⟨hreached, -⟩ | ⟨e, herror, -⟩ | ⟨i, hi, hround⟩
  · rw [hlimit] at hreached
    cases hreached
  · rw [hdecode] at herror
    cases herror
  · rw [hdecode] at hi
    cases hi
    rw [hexecute] at hround
    rcases hround with ⟨fault, t, hfault, -⟩ | ⟨control, t, hok, hround⟩
    · cases hfault
    · cases hok
      exact ⟨_, hround, rfl⟩

/-- In a run of a linked function every local that is named is one of the frame. -/
theorem Loader.Consistent.lt_localOffsets {loader : Loader} (h : loader.Consistent) {f : Function}
    (hf : f ∈ loader.registry.functions) {memory : Memory} (hmemory : memory.Sound) {limit : Option UInt64}
    {rounds : Nat} {output : Array String} {ip : Nat} {s : State} {index : UInt8}
    (hrun : Run.advance (loader.linked f) limit rounds (Run.start (loader.linked f) memory output) = .running ip s)
    (hdecode : Instruction.decodeAt (loader.linked f).code ip = .ok ⟨.loadLocalAddress, .localIndex index⟩) :
    index.toNat < f.localOffsets.length := by
  obtain ⟨⟨is, hverified⟩, -, -⟩ := h.verifiedBy_linked hf
  have hconfined := hverified.advance_confined hmemory limit rounds output
  rw [hrun] at hconfined
  have hmem := hverified.mem_of_decodeAt hconfined hdecode
  exact hverified.locals _ hmem index rfl

theorem Builder.Assembles.offsets_eq {builder : Builder} {f : Function} (h : builder.Assembles f) (layout : Layout)
    (k : Nat) :
    f.localOffsets[k]?.map (fun offset => layout.stackStart + offset.toNat) =
      (layout.slots builder.localSizes)[k]?.map Stretch.start := by
  obtain ⟨hcount, -, -, hexact⟩ := layOutLocals?_exact h.frame
  rw [Layout.slots, Stretch.getElem?_consecutive, Option.map_map]
  by_cases hk : k < builder.localSizes.length
  · have hoffset := List.getElem?_eq_getElem (l := f.localOffsets) (i := k) (by omega)
    rw [List.getElem?_eq_getElem hk, hoffset, Option.map_some, Option.map_some, hexact k _ hoffset]
    rfl
  · rw [List.getElem?_eq_none (by omega), List.getElem?_eq_none (by omega)]
    rfl

/-- However a function is assembled and linked, a run that has got its frame keeps locals, exchanges, heap blocks and
static blocks apart. -/
theorem Builder.keepsApart_of_link {builder : Builder} {f : Function} (hassemble : builder.assemble = .ok f)
    {loader : Loader} (h : loader.Reached) (hf : f ∈ loader.registry.functions) {image : Image}
    (hlink : loader.link = .ok image) {g : Function} (hg : image.function? f.name = some g) {memory : Memory}
    (hmemory : memory.SameShape image.memory) (hframe : g.stackTop memory.layout ≤ memory.layout.heapStart)
    (limit : Option UInt64) (output : Array String) :
    loader.KeepsApart image builder.localSizes g limit memory.layout (Run.start g memory output) := by
  have hconsistent := h.consistent
  have hassembles := Builder.assembles_of_assemble hassemble
  have hsound := hmemory.sound (hconsistent.sound_of_link hlink)
  rw [hconsistent.function?_of_mem hlink hf] at hg
  obtain rfl := Option.some.inj hg
  have htop : (loader.linked f).stackTop memory.layout =
      memory.layout.stackStart + Size.total builder.localSizes := by
    rw [← hassembles.localSize_eq.2]
    rfl
  have hstack := hsound.stackStart_le
  have hstop := hsound.heapStart_le
  have hoffsets := hassembles.offsets_eq memory.layout
  have hslots : Stretch.InOrder memory.layout.stackStart ((loader.linked f).stackTop memory.layout)
      (memory.layout.slots builder.localSizes) := by
    rw [htop]
    exact Stretch.inOrder_consecutive _ _
  have hstatics : Stretch.InOrder 0 memory.layout.stackStart loader.blockStretches := by
    rw [hmemory.layout_eq]
    exact hconsistent.inOrder_blockStretches hlink
  have hheap := heapLaidOut_advance (loader.linked f) limit hsound output
  refine ⟨hoffsets, ?_, hslots, ?_, hheap, fun rounds => (hheap rounds).inOrder, ?_, hstatics, ?_⟩
  · intro rounds ip s index hrun hlimit hdecode
    -- the local exists, and its slot starts before the end of the frame
    have hoffset := List.getElem?_eq_getElem (hconsistent.lt_localOffsets hf hsound hrun hdecode)
    obtain ⟨t, hround, hwords⟩ := localAddress_of_round (f := loader.linked f) hlimit hdecode hoffset
    have hslot := hoffsets index.toNat
    rw [hoffset, Option.map_some] at hslot
    obtain ⟨slot, hget, hstart⟩ := Option.map_eq_some_iff.1 hslot.symm
    have hinside := hslots.inside slot (List.mem_of_getElem? hget)
    rw [(sameShape_of_advance hsound hrun).layout_eq, ← hstart] at hwords
    refine ⟨slot, _, t, hget, toInt_addressWord ?_, hround, hwords⟩
    obtain ⟨-, hend⟩ := hinside
    have hbytes := hsound.stop_eq
    have hbound := hsound.size_le
    omega
  · intro rounds ip s operand hrun hdecode
    exact exchange_of_advance hsound hrun hdecode
  · intro k block hk
    refine ⟨⟨loader.address k, block.data.size⟩, ?_, rfl, (hconsistent.placement hlink).held k block hk⟩
    rw [loader.getElem?_blockStretches, hk]
    rfl
  · intro rounds scratch hscratch
    have hbehind := (Stretch.inOrder_singleton hscratch).append (hheap rounds).inOrder hframe hstop
    have hlocals := hslots.append hbehind (by omega) (by omega)
    exact hstatics.append hlocals (Nat.zero_le _) (by omega)

/-- Exchanges two locals, between which a third one has no bytes, asks the heap for less than nothing, and loads the address
of a static block. -/
def shuffler : Builder :=
  { name := "shuffle", localSizes := [4, 0, 4]
    emissions := #[.localAddress 0, .localAddress 2, .immediate 4, .plain ⟨.exchangeBytes, rfl⟩, .immediate (-3),
      .plain ⟨.alloc, rfl⟩, .staticAddress ⟨0⟩, .plain ⟨.ret, rfl⟩]
    blocks := #[{ data := #[1, 2, 3] }] }

def shuffle : Function :=
  { name := "shuffle", localOffsets := [0, 4, 4], localSize := 8
    code := encodeAll [⟨.loadLocalAddress, .localIndex 0⟩, ⟨.loadLocalAddress, .localIndex 2⟩,
      ⟨.loadImmediate, .immediate 4⟩, .plain .exchangeBytes, ⟨.loadImmediate, .immediate (-3)⟩, .plain .alloc,
      ⟨.loadStaticAddress, .dataAddress 0⟩, .plain .ret]
    staticData := [⟨#[1, 2, 3], [16], none⟩] }

def shuffleLoader : Loader :=
  (Loader.load {} shuffle).2

theorem Builder.keepsApart_of_link_shuffle :
    shuffler.assemble = .ok shuffle ∧ shuffleLoader.registry.functions = [shuffle] ∧
    ∃ image g, shuffleLoader.link = .ok image ∧ image.function? "shuffle" = some g ∧
      g.stackTop image.memory.layout ≤ image.memory.layout.heapStart ∧
      ∀ limit output,
        shuffleLoader.KeepsApart image [4, 0, 4] g limit image.memory.layout (Run.start g image.memory output) := by
  have hassemble : shuffler.assemble = .ok shuffle := Builder.assemble_of_toOption (by decide +kernel)
  have hfunctions : shuffleLoader.registry.functions = [shuffle] := by decide +kernel
  have hf : shuffle ∈ shuffleLoader.registry.functions := by simp [hfunctions]
  have hreached : shuffleLoader.Reached := .load (.ofConfig (show Loader.ofConfig {} = .ok {} from rfl)) shuffle
  have hconfig : shuffleLoader.config = {} := Loader.config_load {} shuffle
  obtain ⟨image, hlink⟩ : ∃ image, shuffleLoader.link = .ok image := by
    have hsize : shuffleLoader.staticDataSize = 4 := by decide +kernel
    rw [hreached.consistent.link_eq, hconfig, hsize]
    exact ⟨_, rfl⟩
  have hg := hreached.consistent.function?_of_mem hlink hf
  have hframe : (shuffleLoader.linked shuffle).stackTop image.memory.layout ≤ image.memory.layout.heapStart := by
    have hlocals : (shuffleLoader.linked shuffle).localSize.toNat = 8 := rfl
    have hstack : shuffleLoader.config.stackSize.toNat = 1024 := by
      rw [hconfig]
      rfl
    rw [(hreached.consistent.placement hlink).layout]
    unfold Function.stackTop Layout.ofSizes
    dsimp only
    omega
  exact ⟨hassemble, hfunctions, image, _, hlink, hg, hframe, fun limit output =>
    Builder.keepsApart_of_link hassemble hreached hf hlink hg (Memory.SameShape.refl _) hframe limit output⟩

end StackMachine
