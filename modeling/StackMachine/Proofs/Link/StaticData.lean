import StackMachine.Proofs.Link.Linking
import StackMachine.Proofs.Machine.Rounds

/-!
# Reading static data back

An identifier that several blocks carry names the last of them, in the order in which blocks are placed
(`Loader.lastNamed?`).  A fresh image gives back the data of that block, and knows no identifier that no registered
function carries.

Executions change memory and nothing else, and not its shape (`Image.Executed.exists_withMemory`).  So afterwards the same
identifiers are known at the same places, the places still lie inside memory, and what is read is what stands there:
`Loader.Reached.readsBack`.
-/

namespace StackMachine

/-- The images that executions, returning or trapping, make of an image one after the other. -/
inductive Image.Executed (image : Image) : Image → Prop
  | refl : Executed image image
  | execute {before : Image} (h : Executed image before) {rounds : Nat} {name : String} {output : Array String}
      {execution : Execution} (hexecute : before.execute? rounds name output = some execution) :
      Executed image execution.image

/-- Whether a block carries an identifier with the number of the given one. -/
def Block.isNamed (block : Block) (identifier : Identifier) : Bool :=
  block.identifier.any fun own => own.same identifier

/-- The last block that an identifier names, with its number in the order of placement. -/
def Loader.lastNamed? (loader : Loader) (identifier : Identifier) : Option (Block × Nat) :=
  loader.blocks.zipIdx.reverse.find? fun entry => entry.1.isNamed identifier

/-! ### Executions -/

private theorem image_of_execution? {image : Image} {run : Run} {execution : Execution}
    (h : run.execution? image = some execution) : execution.image = image.withMemory run.state.memory := by
  cases run with
  | running ip s => cases h
  | returned s | trapped trap s =>
    cases h
    rfl

/-- An execution changes memory only, and not its shape. -/
theorem Image.exists_withMemory_of_execute? {image : Image} (hsound : image.memory.Sound) {rounds : Nat} {name : String}
    {output : Array String} {execution : Execution} (h : image.execute? rounds name output = some execution) :
    ∃ memory : Memory, memory.SameShape image.memory ∧ execution.image = image.withMemory memory := by
  unfold Image.execute? at h
  split at h
  · cases h
    exact ⟨image.memory, Memory.SameShape.refl _, rfl⟩
  · rename_i f hf
    refine ⟨_, ?_, image_of_execution? h⟩
    apply advance_sameShape hsound
    rw [state_start]
    exact Memory.SameShape.refl _

/-- However many executions there were, they have changed memory only, and not its shape. -/
theorem Image.Executed.exists_withMemory {image after : Image} (h : image.Executed after)
    (hsound : image.memory.Sound) :
    ∃ memory : Memory, memory.SameShape image.memory ∧ after = image.withMemory memory := by
  induction h with
  | refl => exact ⟨image.memory, Memory.SameShape.refl _, rfl⟩
  | execute _ hexecute ih =>
    obtain ⟨memory, hshape, rfl⟩ := ih
    obtain ⟨next, hnext, himage⟩ := Image.exists_withMemory_of_execute? (hshape.sound hsound) hexecute
    exact ⟨next, hnext.trans hshape, himage⟩

theorem Image.Executed.location?_eq {image after : Image} (h : image.Executed after) (hsound : image.memory.Sound)
    (identifier : Identifier) : after.location? identifier = image.location? identifier := by
  obtain ⟨memory, -, rfl⟩ := h.exists_withMemory hsound
  rfl

theorem Image.Executed.size_eq {image after : Image} (h : image.Executed after) (hsound : image.memory.Sound) :
    after.memory.bytes.size = image.memory.bytes.size := by
  obtain ⟨memory, hshape, rfl⟩ := h.exists_withMemory hsound
  exact hshape.size_eq

/-! ### Where a block is found -/

theorem Loader.Consistent.exists_link {loader : Loader} (h : loader.Consistent) {total : Nat}
    (hsize : loader.config.imageSize loader.staticDataSize = .ok total) : ∃ image, loader.link = .ok image := by
  rw [h.link_eq, hsize]
  exact ⟨_, rfl⟩

theorem Block.isNamed_iff {block : Block} {identifier : Identifier} :
    block.isNamed identifier = true ↔ ∃ own, block.identifier = some own ∧ own.id = identifier.id := by
  simp [Block.isNamed, Option.any_eq_true, Identifier.same]

theorem Loader.mem_blocks {loader : Loader} {block : Block} :
    block ∈ loader.blocks ↔ ∃ f ∈ loader.registry.functions, block ∈ f.staticData :=
  List.mem_flatMap

theorem Loader.getElem?_of_lastNamed? {loader : Loader} {identifier : Identifier} {block : Block} {k : Nat}
    (h : loader.lastNamed? identifier = some (block, k)) :
    loader.blocks[k]? = some block ∧ block.isNamed identifier = true := by
  have hmem := List.mem_reverse.1 (List.mem_of_find?_eq_some h)
  have hnamed := List.find?_some h
  exact ⟨List.mem_zipIdx_iff_getElem?.1 hmem, hnamed⟩

theorem Loader.lastNamed?_eq_none_iff {loader : Loader} {identifier : Identifier} :
    loader.lastNamed? identifier = none ↔ ∀ block ∈ loader.blocks, block.isNamed identifier = false := by
  unfold Loader.lastNamed?
  rw [List.find?_eq_none]
  constructor
  · intro hnone block hblock
    obtain ⟨k, hk⟩ := List.mem_iff_getElem?.1 hblock
    simpa using hnone (block, k) (List.mem_reverse.2 (List.mem_zipIdx_iff_getElem?.2 hk))
  · rintro hnone ⟨block, k⟩ hmem
    have hk := List.mem_zipIdx_iff_getElem?.1 (List.mem_reverse.1 hmem)
    simp [hnone block (List.mem_of_getElem? hk)]

/-- An identifier is located at the address of the last block that it names. -/
theorem Loader.Consistent.location?_of_link {loader : Loader} (h : loader.Consistent) {image : Image}
    (hlink : loader.link = .ok image) (identifier : Identifier) :
    image.location? identifier =
      (loader.lastNamed? identifier).map fun entry => ⟨loader.address entry.2, entry.1.data.size⟩ := by
  rw [Image.location?, (h.placement hlink).located, ← List.filterMap_reverse, List.find?_filterMap]
  simp only [Option.any_map]
  show ((loader.lastNamed? identifier).bind _).map _ = _
  cases hnamed : loader.lastNamed? identifier with
  | none => rfl
  | some entry =>
    obtain ⟨own, hown, -⟩ := Block.isNamed_iff.1 (Loader.getElem?_of_lastNamed? hnamed).2
    simp [hown]

/-- Where an identifier is located, memory of the shape of the image has room for the block. -/
theorem Loader.Consistent.location_le {loader : Loader} (h : loader.Consistent) {image : Image}
    (hlink : loader.link = .ok image) {identifier : Identifier} {location : Location}
    (hlocation : image.location? identifier = some location) :
    location.address + location.length ≤ image.memory.bytes.size := by
  rw [h.location?_of_link hlink] at hlocation
  obtain ⟨⟨block, k⟩, hnamed, rfl⟩ := Option.map_eq_some_iff.1 hlocation
  have hplacement := h.placement hlink
  have hwritten := hplacement.written k block (Loader.getElem?_of_lastNamed? hnamed).1
  have hinside := hplacement.inside
  have hsound := h.sound_of_link hlink
  have hstack := hsound.stackStart_le
  have hheap := hsound.heapStart_le
  have hstop := hsound.stop_eq
  dsimp only
  omega

/-- A fresh image gives back the data of the last block that an identifier names. -/
theorem Loader.Consistent.readStaticData_of_link {loader : Loader} (h : loader.Consistent) {image : Image}
    (hlink : loader.link = .ok image) (identifier : Identifier) :
    image.readStaticData identifier =
      match loader.lastNamed? identifier with
      | some (block, _) => .ok block.data.toList
      | none => .error (.unknownStaticData identifier) := by
  unfold Image.readStaticData
  rw [h.location?_of_link hlink]
  cases hnamed : loader.lastNamed? identifier with
  | none => rfl
  | some entry =>
    obtain ⟨block, k⟩ := entry
    have hheld := (h.placement hlink).held k block (Loader.getElem?_of_lastNamed? hnamed).1
    show Except.ok (image.memory.bytes.slice (loader.address k) block.data.size) = .ok block.data.toList
    congr 1
    apply List.ext_getElem?
    intro n
    rw [Bytes.getElem?_slice, Array.getElem?_toList]
    split
    · rename_i hn
      exact hheld n hn
    · rename_i hn
      rw [Array.getElem?_eq_none (by omega)]

/-! ### Reading back -/

/-- How an identifier is read in the image of a loader, and in what executions make of the image. -/
structure Loader.ReadsBack (loader : Loader) (image : Image) (identifier : Identifier) : Prop where
  /-- At first the data of the last block is read. -/
  fresh : image.readStaticData identifier =
    match loader.lastNamed? identifier with
    | some (block, _) => .ok block.data.toList
    | none => .error (.unknownStaticData identifier)
  placed : image.location? identifier =
    (loader.lastNamed? identifier).map fun entry => ⟨loader.address entry.2, entry.1.data.size⟩
  unknown_iff : image.readStaticData identifier = .error (.unknownStaticData identifier) ↔
    ∀ f ∈ loader.registry.functions, ∀ block ∈ f.staticData, ∀ own, block.identifier = some own →
      own.id ≠ identifier.id
  /-- A block that shares its number with no other block is read back. -/
  unique : ∀ f ∈ loader.registry.functions, ∀ block ∈ f.staticData, block.isNamed identifier = true →
    (∀ g ∈ loader.registry.functions, ∀ other ∈ g.staticData, other.isNamed identifier = true → other = block) →
    image.readStaticData identifier = .ok block.data.toList
  /-- Executions move no block and make none known or unknown. -/
  located : ∀ after, image.Executed after → after.location? identifier = image.location? identifier
  unknown : ∀ after, image.Executed after → image.location? identifier = none →
    after.readStaticData identifier = .error (.unknownStaticData identifier)
  /-- What is read after executions are the bytes that stand at the place of the block. -/
  current : ∀ after, image.Executed after → ∀ location, image.location? identifier = some location →
    location.address + location.length ≤ after.memory.bytes.size ∧
    ∃ bytes, after.readStaticData identifier = .ok bytes ∧ bytes.length = location.length ∧
      ∀ n, n < location.length → bytes[n]? = after.memory.bytes[location.address + n]?

private theorem readStaticData_of_location {image : Image} {identifier : Identifier} {location : Location}
    (h : image.location? identifier = some location)
    (hle : location.address + location.length ≤ image.memory.bytes.size) :
    ∃ bytes, image.readStaticData identifier = .ok bytes ∧ bytes.length = location.length ∧
      ∀ n, n < location.length → bytes[n]? = image.memory.bytes[location.address + n]? := by
  refine ⟨image.memory.bytes.slice location.address location.length, ?_, Bytes.length_slice_of_le hle, ?_⟩
  · rw [Image.readStaticData, h]
  · intro n hn
    rw [Bytes.getElem?_slice, if_pos hn]

/-- Static data is read back from the image of every loader, and after executions from where it was placed. -/
theorem Loader.Reached.readsBack {loader : Loader} (h : loader.Reached) {image : Image}
    (hlink : loader.link = .ok image) (identifier : Identifier) : loader.ReadsBack image identifier := by
  have hconsistent := h.consistent
  have hsound := hconsistent.sound_of_link hlink
  have hfresh := hconsistent.readStaticData_of_link hlink identifier
  constructor
  case fresh => exact hfresh
  case placed => exact hconsistent.location?_of_link hlink identifier
  case unknown_iff =>
    have hnone : image.readStaticData identifier = .error (.unknownStaticData identifier) ↔
        loader.lastNamed? identifier = none := by
      rw [hfresh]
      cases loader.lastNamed? identifier <;> simp
    rw [hnone, Loader.lastNamed?_eq_none_iff]
    constructor
    · intro hall f hf block hblock own hown hid
      have hnamed := hall block (Loader.mem_blocks.2 ⟨f, hf, hblock⟩)
      rw [Block.isNamed_iff.2 ⟨own, hown, hid⟩] at hnamed
      cases hnamed
    · intro hall block hblock
      obtain ⟨f, hf, hblock⟩ := Loader.mem_blocks.1 hblock
      rw [← Bool.not_eq_true, Block.isNamed_iff]
      rintro ⟨own, hown, hid⟩
      exact hall f hf block hblock own hown hid
  case unique =>
    intro f hf block hblock hnamed honly
    rw [hfresh]
    cases hlast : loader.lastNamed? identifier with
    | none =>
      have hnot := Loader.lastNamed?_eq_none_iff.1 hlast block (Loader.mem_blocks.2 ⟨f, hf, hblock⟩)
      rw [hnamed] at hnot
      cases hnot
    | some entry =>
      obtain ⟨other, k⟩ := entry
      obtain ⟨hk, hother⟩ := Loader.getElem?_of_lastNamed? hlast
      obtain ⟨g, hg, hmem⟩ := Loader.mem_blocks.1 (List.mem_of_getElem? hk)
      rw [honly g hg other hmem hother]
  case located =>
    intro after hafter
    exact hafter.location?_eq hsound identifier
  case unknown =>
    intro after hafter hlocation
    rw [Image.readStaticData, hafter.location?_eq hsound, hlocation]
  case current =>
    intro after hafter location hlocation
    have hle : location.address + location.length ≤ after.memory.bytes.size := by
      rw [hafter.size_eq hsound]
      exact hconsistent.location_le hlink hlocation
    have hsame : after.location? identifier = some location := by
      rw [hafter.location?_eq hsound, hlocation]
    exact ⟨hle, readStaticData_of_location hsame hle⟩

/-- Two blocks whose identifiers have the same number and different labels. -/
def relabelled : Function :=
  { name := "relabelled", localOffsets := [], localSize := 0, code := encodeAll [.plain .ret]
    staticData := [⟨#[1, 2, 3, 4, 5], [], some ⟨7, some "first"⟩⟩, ⟨#[6], [], some ⟨7, none⟩⟩] }

/-- The loader that holds just this function. -/
def relabelledLoader : Loader :=
  (Loader.load {} relabelled).2

theorem Loader.Reached.readsBack_relabelled :
    relabelledLoader.Reached ∧ ∃ image, relabelledLoader.link = .ok image ∧
      relabelledLoader.ReadsBack image ⟨7, some "any"⟩ ∧ image.readStaticData ⟨7, some "any"⟩ = .ok [6] := by
  have hreached : relabelledLoader.Reached := .load (.ofConfig (show Loader.ofConfig {} = .ok {} from rfl)) relabelled
  have hsize : relabelledLoader.config.imageSize relabelledLoader.staticDataSize = .ok 4096 := by decide +kernel
  have hlast : relabelledLoader.lastNamed? ⟨7, some "any"⟩ = some (⟨#[6], [], some ⟨7, none⟩⟩, 1) := by
    decide +kernel
  obtain ⟨image, hlink⟩ := hreached.consistent.exists_link hsize
  have hreads := hreached.readsBack hlink ⟨7, some "any"⟩
  refine ⟨hreached, image, hlink, hreads, ?_⟩
  rw [hreads.fresh, hlast]

end StackMachine
