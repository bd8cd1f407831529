import StackMachine.Proofs.Link.Placement

/-!
# What linking makes

Linking a loader that is reached by loading functions fails only if the image would be too large, and with that error:
every function that was loaded can be relocated (`link_eq`).  What is made then is a `Loader.Placement`: each block
stands in a slot of its own, the slots fill the start of the data region, and every other byte is zero.

The address of a block is counted over all blocks; the linker hands it out function by function.  Names increase along
the registry, so the blocks before those of a function are the blocks of the functions with smaller names
(`placed_eq`).
-/

namespace StackMachine

/-- A function as it is linked. -/
def Loader.linked (loader : Loader) (f : Function) : Function :=
  f.withAddresses ((loader.addressesOf f).map Int32.ofNat)

/-! ### The addresses of one function -/

private theorem getElem?_placeFunctions (alignment start : Nat) (fs : List Function) (k : Nat) :
    (placeFunctions alignment start fs)[k]? = fs[k]?.map fun f =>
      (f, blockAddresses alignment (start + Size.total ((fs.take k).map (Function.footprint · alignment)))
        f.staticData) := by
  induction fs generalizing start k with
  | nil => simp [placeFunctions]
  | cons f fs ih =>
    cases k with
    | zero => simp [placeFunctions]
    | succ k =>
      simp only [placeFunctions, List.getElem?_cons_succ, ih, List.take_succ_cons, List.map_cons, Size.total_cons,
        Nat.add_assoc]

/-- The functions with smaller names are those before a function. -/
private theorem takeWhile_eq_take {fs : List Function} (h : fs.Pairwise fun f g => f.name < g.name) {k : Nat}
    {f : Function} (hk : fs[k]? = some f) : (fs.takeWhile fun g => g.name < f.name) = fs.take k := by
  induction fs generalizing k with
  | nil => cases hk
  | cons g fs ih =>
    obtain ⟨hg, hfs⟩ := List.pairwise_cons.1 h
    cases k with
    | zero =>
      cases hk
      exact List.takeWhile_cons_of_neg (by simp)
    | succ k =>
      have hmem : f ∈ fs := List.mem_of_getElem? hk
      rw [List.takeWhile_cons_of_pos (by simpa using hg f hmem), ih hfs hk, List.take_succ_cons]

/-- The blocks, split around those of a function. -/
private theorem blocks_split {loader : Loader} {k : Nat} {f : Function}
    (hk : loader.registry.functions[k]? = some f) :
    loader.blocks = (loader.registry.functions.take k).flatMap Function.staticData ++
      (f.staticData ++ (loader.registry.functions.drop (k + 1)).flatMap Function.staticData) := by
  obtain ⟨hlt, hget⟩ := List.getElem?_eq_some_iff.1 hk
  rw [← List.flatMap_cons, ← hget, ← List.drop_eq_getElem_cons hlt, ← List.flatMap_append, List.take_append_drop]
  rfl

private theorem blocksBefore_eq {loader : Loader} {k : Nat} {f : Function}
    (hk : loader.registry.functions[k]? = some f) :
    loader.blocksBefore f = ((loader.registry.functions.take k).flatMap Function.staticData).length := by
  rw [Loader.blocksBefore, takeWhile_eq_take loader.registry.sorted hk]

/-- A block of a function among the blocks of all functions. -/
theorem Loader.getElem?_blocks {loader : Loader} {f : Function} (hf : f ∈ loader.registry.functions) {j : Nat}
    {block : Block} (hj : f.staticData[j]? = some block) :
    loader.blocks[loader.blocksBefore f + j]? = some block := by
  obtain ⟨k, hk⟩ := List.mem_iff_getElem?.1 hf
  have hlt := (List.getElem?_eq_some_iff.1 hj).1
  rw [blocks_split hk, blocksBefore_eq hk, List.getElem?_append_right (by omega), Nat.add_sub_cancel_left,
    List.getElem?_append_left hlt, hj]

private theorem addressesOf_eq {loader : Loader} {k : Nat} {f : Function}
    (hk : loader.registry.functions[k]? = some f) :
    loader.addressesOf f = blockAddresses loader.config.staticDataAlignment.toNat
      (Size.total ((loader.registry.functions.take k).map loader.footprint)) f.staticData := by
  apply List.ext_getElem?
  intro j
  rw [getElem?_blockAddresses, Loader.addressesOf, List.getElem?_map]
  cases hblock : f.staticData[j]? with
  | none =>
    have hlen := List.getElem?_eq_none_iff.1 hblock
    rw [List.getElem?_eq_none (by simpa using hlen)]
    rfl
  | some block =>
    have hj := (List.getElem?_eq_some_iff.1 hblock).1
    rw [List.getElem?_range hj, Option.map_some, Option.map_some, blocksBefore_eq hk, Loader.address, blocks_split hk,
      List.take_length_add_append, List.take_append_of_le_length (by omega), List.map_append, Size.total_append,
      Loader.sum_footprint]
    rfl

/-- Every function is placed with the addresses of its blocks. -/
theorem Loader.placed_eq (loader : Loader) :
    loader.placed = loader.registry.functions.map fun f => (f, loader.addressesOf f) := by
  apply List.ext_getElem?
  intro k
  rw [Loader.placed, getElem?_placeFunctions, List.getElem?_map]
  cases hk : loader.registry.functions[k]? with
  | none => rfl
  | some f =>
    rw [Option.map_some, Option.map_some, addressesOf_eq hk, Nat.zero_add]
    rfl

/-! ### Linking -/

private theorem mapM_eq_ok {α β : Type} {g : α → Except CodeError β} {value : α → β} {l : List α}
    (h : ∀ a ∈ l, g a = .ok (value a)) : l.mapM g = .ok (l.map value) := by
  induction l with
  | nil => rfl
  | cons a l ih =>
    rw [List.mapM_cons, h a (by simp), ih fun b hb => h b (by simp [hb])]
    rfl

/-- Every function that was loaded can be relocated. -/
theorem Loader.Consistent.relocate_eq {loader : Loader} (h : loader.Consistent) {f : Function}
    (hf : f ∈ loader.registry.functions) :
    f.relocate ((loader.addressesOf f).map Int32.ofNat) = .ok (loader.linked f) := by
  obtain ⟨hpatched, is, hverified⟩ := Function.verifiedBy_of_loadError? (h.accepted f hf)
  exact Function.relocate_of_verifiedBy hverified hpatched (by simp [Loader.addressesOf])

theorem Loader.Consistent.relocated_eq {loader : Loader} (h : loader.Consistent) :
    loader.relocated = .ok (loader.registry.functions.map loader.linked) := by
  rw [Loader.relocated, Loader.placed_eq, List.mapM_map]
  exact mapM_eq_ok fun f hf => h.relocate_eq hf

/-- Linking fails only for the size of the image. -/
theorem Loader.Consistent.link_eq {loader : Loader} (h : loader.Consistent) :
    loader.link =
      match loader.config.imageSize loader.staticDataSize with
      | .error flaw => .error (.invalidConfig flaw)
      | .ok total =>
        .ok { config := loader.config, memory := loader.memory (loader.layout total),
              functions := loader.registry.functions.map loader.linked, locations := loader.locations } := by
  unfold Loader.link
  cases loader.config.imageSize loader.staticDataSize with
  | error flaw => rfl
  | ok total =>
    dsimp only
    rw [h.relocated_eq]

/-- The size of an image is that of its regions. -/
theorem Config.imageSize_ok {config : Config} {staticDataSize total : Nat}
    (h : config.imageSize staticDataSize = .ok total) :
    0 < config.dataSegmentAlignment.toNat ∧ total ≤ maxWord ∧
      total = roundUp staticDataSize config.dataSegmentAlignment.toNat + config.stackSize.toNat +
        config.heapSize.toNat := by
  unfold Config.imageSize at h
  split at h
  · rename_i size hsize
    split at h
    · rename_i hle
      cases h
      -- each of the three sums has been made
      obtain ⟨data, hdata, hsize⟩ := Option.bind_eq_some_iff.1 hsize
      obtain ⟨withStack, hstack, hheap⟩ := Option.bind_eq_some_iff.1 hsize
      unfold Size.roundUp? at hdata
      unfold Size.add? at hstack hheap
      split at hdata
      · rename_i hpos
        cases hdata
        split at hstack
        · cases hstack
          split at hheap
          · cases hheap
            exact ⟨hpos.1, hle, rfl⟩
          · cases hheap
        · cases hstack
      · cases hdata
    · cases h
  · cases h

/-- What a loader has made when linking has gone through. -/
theorem Loader.Consistent.link_ok {loader : Loader} (h : loader.Consistent) {image : Image}
    (hlink : loader.link = .ok image) :
    let data := roundUp loader.staticDataSize loader.config.dataSegmentAlignment.toNat
    let layout := Layout.ofSizes data loader.config.stackSize.toNat loader.config.heapSize.toNat
    loader.staticDataSize ≤ data ∧ layout.stop ≤ maxWord ∧
      image = { config := loader.config, memory := loader.memory layout,
                functions := loader.registry.functions.map loader.linked, locations := loader.locations } := by
  rw [h.link_eq] at hlink
  split at hlink
  · cases hlink
  · rename_i total hsize
    cases hlink
    obtain ⟨hpos, hle, rfl⟩ := Config.imageSize_ok hsize
    refine ⟨le_roundUp _ hpos, hle, ?_⟩
    rw [Loader.layout, Nat.add_right_comm, Nat.add_sub_cancel, Nat.add_sub_cancel]

/-- A function of the image is a function of the loader with the addresses in its code. -/
theorem Loader.Consistent.function?_of_link {loader : Loader} (h : loader.Consistent) {image : Image}
    (hlink : loader.link = .ok image) (name : String) :
    image.function? name = (loader.registry.find? name).map loader.linked := by
  obtain ⟨-, -, rfl⟩ := h.link_ok hlink
  exact List.find?_map ..

theorem Loader.Consistent.function?_of_mem {loader : Loader} (h : loader.Consistent) {image : Image}
    (hlink : loader.link = .ok image) {f : Function} (hf : f ∈ loader.registry.functions) :
    image.function? f.name = some (loader.linked f) := by
  rw [h.function?_of_link hlink, Registry.find?_eq_some_iff.2 hf, Option.map_some]

/-- The regions of an image lie one after the other and fill its memory. -/
theorem Loader.Consistent.sound_of_link {loader : Loader} (h : loader.Consistent) {image : Image}
    (hlink : loader.link = .ok image) : image.memory.Sound := by
  obtain ⟨-, hle, rfl⟩ := h.link_ok hlink
  refine (loader.sameShape_memory _).sound ⟨Nat.le_add_right _ _, Nat.le_add_right _ _, ?_, ?_⟩
  · exact (Bytes.size_zeros _).symm
  · rw [Memory.zeros, Bytes.size_zeros]
    exact hle

/-! ### The placement -/

/-- How an image holds the static blocks of a loader.  The order of the blocks is that of the functions' names, and in
each function that of the function. -/
structure Loader.Placement (loader : Loader) (image : Image) : Prop where
  /-- The code of each function is patched with the addresses of its own blocks. -/
  patched : ∀ f ∈ loader.registry.functions, ∃ g, image.function? f.name = some g ∧
    f.relocate ((loader.addressesOf f).map Int32.ofNat) = .ok g
  /-- Every address is a word. -/
  word : ∀ k, (Int32.ofNat (loader.address k)).toInt = loader.address k
  /-- Blocks with identifiers are found at their addresses. -/
  located : image.locations = loader.blocks.zipIdx.filterMap fun (block, k) =>
    block.identifier.map fun identifier => (identifier, ⟨loader.address k, block.data.size⟩)
  aligned : ∀ k, loader.config.staticDataAlignment.toNat ∣ loader.address k
  disjoint : ∀ (j k : Nat) (block : Block), loader.blocks[j]? = some block → j < k →
    loader.address j + loader.slotSize block ≤ loader.address k
  covered : ∀ n, n < loader.staticDataSize ↔ ∃ (k : Nat) (block : Block), loader.blocks[k]? = some block ∧
    loader.address k ≤ n ∧ n < loader.address k + loader.slotSize block
  inside : loader.staticDataSize ≤ image.memory.layout.stackStart
  /-- No block is written past the end of the static data. -/
  written : ∀ (k : Nat) (block : Block), loader.blocks[k]? = some block →
    loader.address k + block.data.size ≤ loader.staticDataSize
  held : ∀ (k : Nat) (block : Block), loader.blocks[k]? = some block → ∀ n, n < block.data.size →
    image.memory.bytes[loader.address k + n]? = block.data[n]?
  blank : ∀ n, n < image.memory.bytes.size →
    (∀ (k : Nat) (block : Block), loader.blocks[k]? = some block →
      n < loader.address k ∨ loader.address k + block.data.size ≤ n) →
    image.memory.bytes[n]? = some 0
  layout : image.memory.layout =
    .ofSizes (roundUp loader.staticDataSize loader.config.dataSegmentAlignment.toNat) loader.config.stackSize.toNat
      loader.config.heapSize.toNat
  size : image.memory.bytes.size =
      image.memory.layout.dataSize + image.memory.layout.stackSize + image.memory.layout.heapSize ∧
    image.memory.bytes.size ≤ maxWord

theorem Loader.locations_eq (loader : Loader) :
    loader.locations = loader.blocks.zipIdx.filterMap fun (block, k) =>
      block.identifier.map fun identifier => (identifier, ⟨loader.address k, block.data.size⟩) := by
  have hplacements : loader.placements = loader.blocks.zipIdx.map fun (block, k) => (block, loader.address k) := by
    apply List.ext_getElem?
    intro k
    rw [Loader.getElem?_placements, List.getElem?_map, List.getElem?_zipIdx, Option.map_map, Nat.zero_add]
    rfl
  rw [Loader.locations, hplacements, List.filterMap_map]
  rfl

/-- Behind the last block the sums stay at the size of all static data. -/
theorem Loader.Consistent.address_le {loader : Loader} (h : loader.Consistent) (k : Nat) :
    loader.address k ≤ loader.staticDataSize := by
  rw [← h.address_length]
  by_cases hk : k ≤ loader.blocks.length
  · exact Loader.address_mono hk
  · have hend : loader.address k = loader.address loader.blocks.length := by
      rw [Loader.address, Loader.address, List.take_length, List.take_of_length_le (by omega)]
    exact Nat.le_of_eq hend

theorem Loader.Consistent.slot_le {loader : Loader} (h : loader.Consistent) {k : Nat} {block : Block}
    (hk : loader.blocks[k]? = some block) :
    loader.address k + loader.slotSize block ≤ loader.staticDataSize := by
  rw [← Loader.address_succ hk]
  exact h.address_le (k + 1)

/-- What linking makes holds every block in its place. -/
theorem Loader.Consistent.placement {loader : Loader} (h : loader.Consistent) {image : Image}
    (hlink : loader.link = .ok image) : loader.Placement image := by
  have hsound := h.sound_of_link hlink
  obtain ⟨hdata, hle, himage⟩ := h.link_ok hlink
  have hmemory := congrArg Image.memory himage
  have hlayout : image.memory.layout = .ofSizes
      (roundUp loader.staticDataSize loader.config.dataSegmentAlignment.toNat) loader.config.stackSize.toNat
      loader.config.heapSize.toNat := by
    rw [hmemory]
    exact (loader.sameShape_memory _).layout_eq
  have hinside : loader.staticDataSize ≤ image.memory.layout.stackStart := by
    rw [hlayout]
    exact hdata
  have hstack := hsound.stackStart_le
  have hheap := hsound.heapStart_le
  have hstop := hsound.stop_eq
  have hsize := hsound.size_le
  have hwritten : ∀ (k : Nat) (block : Block), loader.blocks[k]? = some block →
      loader.address k + block.data.size ≤ loader.staticDataSize := by
    intro k block hk
    have hslot := h.slot_le hk
    have hroom := h.size_le_slotSize block
    omega
  refine ⟨?_, ?_, ?_, loader.alignment_dvd_address, ?_, ?_, hinside, hwritten, ?_, ?_, hlayout, ?_⟩
  · intro f hf
    exact ⟨loader.linked f, h.function?_of_mem hlink hf, h.relocate_eq hf⟩
  · intro k
    have haddress := h.address_le k
    unfold maxWord at hsize
    exact Int32.toInt_ofNat_of_lt (by omega)
  · rw [himage]
    exact loader.locations_eq
  · intro j k block hj hjk
    exact Loader.address_add_slotSize_le hj hjk
  · intro n
    constructor
    · intro hn
      rw [← h.address_length] at hn
      exact Loader.exists_block_of_lt hn
    · rintro ⟨k, block, hk, -, hn⟩
      exact Nat.lt_of_lt_of_le hn (h.slot_le hk)
  · intro k block hk n hn
    have hin := hwritten k block hk
    rw [hlayout] at hstop hinside hstack hheap
    rw [hmemory]
    exact h.getElem?_memory_of_block hk (by omega) hn
  · intro n hn hgap
    rw [← hstop, hlayout] at hn
    rw [hmemory]
    exact Loader.getElem?_memory_of_gap hn hgap
  · refine ⟨?_, hsize⟩
    unfold Layout.dataSize Layout.stackSize Layout.heapSize
    omega

/-- Linking fails exactly for the size of the image, and otherwise holds every block in its place. -/
theorem Loader.Reached.link_placement {loader : Loader} (h : loader.Reached) :
    (∀ error, loader.link = .error error ↔
      ∃ flaw, loader.config.imageSize loader.staticDataSize = .error flaw ∧ error = .invalidConfig flaw) ∧
    ∀ image, loader.link = .ok image → loader.Placement image := by
  refine ⟨fun error => ?_, fun image hlink => h.consistent.placement hlink⟩
  rw [h.consistent.link_eq]
  cases loader.config.imageSize loader.staticDataSize with
  | error flaw =>
    constructor
    · intro herror
      cases herror
      exact ⟨flaw, rfl, rfl⟩
    · rintro ⟨_, hflaw, rfl⟩
      cases hflaw
      rfl
  | ok total =>
    refine iff_of_false (by simp) ?_
    rintro ⟨_, hflaw, -⟩
    cases hflaw

/-- Keeps the address of its one static block in a local, and gives the block out again and again. -/
def greeting : Function :=
  { name := "greeting", localOffsets := [0], localSize := 4
    code := encodeAll [⟨.loadLocalAddress, .localIndex 0⟩, ⟨.loadStaticAddress, .dataAddress 0⟩, .plain .storePointer,
      ⟨.loadStaticAddress, .dataAddress 0⟩, ⟨.loadImmediate, .immediate 2⟩, .plain .outputString,
      ⟨.branch, .codeAddress 8⟩]
    staticData := [⟨#[104, 105], [2, 8], none⟩] }

/-- The loader that holds just this function. -/
def greetingLoader : Loader :=
  (Loader.load {} greeting).2

theorem functions_greetingLoader : greetingLoader.registry.functions = [greeting] := by
  decide +kernel

theorem greeting_mem_greetingLoader : greeting ∈ greetingLoader.registry.functions := by
  simp [functions_greetingLoader]

theorem reached_greetingLoader : greetingLoader.Reached :=
  .load (.ofConfig (show Loader.ofConfig {} = .ok {} from rfl)) greeting

theorem exists_link_greetingLoader : ∃ image, greetingLoader.link = .ok image := by
  have hconfig : greetingLoader.config = {} := Loader.config_load {} greeting
  have hsize : greetingLoader.staticDataSize = 4 := by decide +kernel
  rw [reached_greetingLoader.consistent.link_eq, hconfig, hsize]
  exact ⟨_, rfl⟩

/-- Has a static block that takes two slots and one that is empty, and comes before the greeting by its name. -/
def farewell : Function :=
  { name := "farewell", localOffsets := [], localSize := 0
    code := encodeAll [⟨.loadStaticAddress, .dataAddress 0⟩, ⟨.loadStaticAddress, .dataAddress 0⟩, .plain .ret]
    staticData := [⟨#[98, 121, 101, 33, 10], [5], none⟩, ⟨#[], [0], none⟩] }

/-- The loader that holds both functions, the greeting loaded first. -/
def farewellLoader : Loader :=
  (greetingLoader.load farewell).2

theorem Loader.Reached.link_placement_farewell :
    farewellLoader.registry.functions = [farewell, greeting] ∧
      (List.range 4).map farewellLoader.address = [0, 8, 12, 16] ∧
      ∃ image, farewellLoader.link = .ok image ∧ farewellLoader.Placement image ∧
        image.memory.bytes[4]? = some 10 ∧ image.memory.bytes[12]? = some 104 := by
  have hreached : farewellLoader.Reached := .load reached_greetingLoader farewell
  have hfunctions : farewellLoader.registry.functions = [farewell, greeting] := by decide +kernel
  have haddresses : (List.range 4).map farewellLoader.address = [0, 8, 12, 16] := by decide +kernel
  have hconfig : farewellLoader.config = {} :=
    (Loader.config_load greetingLoader farewell).trans (Loader.config_load {} greeting)
  have hsize : farewellLoader.staticDataSize = 16 := by decide +kernel
  obtain ⟨image, hlink⟩ : ∃ image, farewellLoader.link = .ok image := by
    rw [hreached.consistent.link_eq, hconfig, hsize]
    exact ⟨_, rfl⟩
  have hplacement := hreached.link_placement.2 image hlink
  have hblocks : farewellLoader.blocks = farewell.staticData ++ greeting.staticData := by
    rw [Loader.blocks, hfunctions]
    rfl
  have hbye := hplacement.held 0 _ (by rw [hblocks]; rfl) 4 (by decide)
  have hhi := hplacement.held 2 _ (by rw [hblocks]; rfl) 0 (by decide)
  rw [show farewellLoader.address 0 = 0 from rfl] at hbye
  rw [show farewellLoader.address 2 = 12 by decide +kernel] at hhi
  exact ⟨hfunctions, haddresses, image, hlink, hplacement, hbye, hhi⟩

/-! ### One function alone -/

/-- The loader that holds just one function. -/
def Loader.holding (f : Function) : Loader :=
  (Loader.load {} f).2

theorem Loader.reached_holding (f : Function) : (Loader.holding f).Reached :=
  .load (.ofConfig (show Loader.ofConfig {} = .ok {} from rfl)) f

/-- A function without static data is linked as it is, into memory of zeros. -/
theorem Loader.exists_link_holding {f : Function} (hload : f.loadError? = none) (hdata : f.staticData = []) :
    ∃ image, (Loader.holding f).link = .ok image ∧ image.config = {} ∧
      image.function? f.name = some { f with patched := true } ∧
      image.memory = Memory.zeros (.ofSizes 0 1024 2048) := by
  have hconsistent := (Loader.reached_holding f).consistent
  have hholding : Loader.holding f = Loader.register {} f := by rw [Loader.holding, Loader.load, hload]
  have hfunctions : (Loader.holding f).registry.functions = [f] := by
    rw [hholding]
    rfl
  have hconfig : (Loader.holding f).config = {} := by
    rw [hholding]
    rfl
  have hsize : (Loader.holding f).staticDataSize = 0 := by
    rw [hholding]
    simp [Loader.register, Loader.footprint, Function.footprint, hdata]
  have hplacements : (Loader.holding f).placements = [] := by
    rw [Loader.placements, Loader.placed, hfunctions]
    simp [placeFunctions, hdata]
  have hlinked : (Loader.holding f).linked f = { f with patched := true } := by
    rw [Loader.linked, Function.withAddresses, Function.relocations, hdata]
    rfl
  obtain ⟨image, hlink, himage, hmemory⟩ : ∃ image, (Loader.holding f).link = .ok image ∧ image.config = {} ∧
      image.memory = Memory.zeros (.ofSizes 0 1024 2048) := by
    rw [hconsistent.link_eq, hconfig, hsize]
    refine ⟨_, rfl, rfl, ?_⟩
    rw [Loader.memory, hplacements, Loader.layout, hconfig]
    rfl
  refine ⟨image, hlink, himage, ?_, hmemory⟩
  rw [← hlinked]
  exact hconsistent.function?_of_mem hlink (by simp [hfunctions])

end StackMachine
