import StackMachine.Proofs.Function.Relocated
import StackMachine.Proofs.Link.Accounting
import StackMachine.Proofs.Machine.Memory

/-!
# Where linking puts static blocks

The blocks of a loader are those of its functions, in the order of the functions' names and of the blocks in each
function.  The address of a block is the sum of the slots of the blocks before it (`Loader.address`); this is where the
two ways of computing it meet, the sum that the loader keeps and the walk of the linker: `getElem?_placements` and
`Loader.Consistent.address_length`.

Linking writes one block after the other.  Slots do not overlap, so no block is written over by a later one and what is
in no block stays zero: `getElem?_memory_of_block` and `getElem?_memory_of_gap`.
-/

namespace StackMachine

/-- The static blocks of all functions, in order of placement. -/
def Loader.blocks (loader : Loader) : List Block :=
  loader.registry.functions.flatMap Function.staticData

/-- Bytes that a block takes in the image of a loader. -/
def Loader.slotSize (loader : Loader) (block : Block) : Nat :=
  block.slotSize loader.config.staticDataAlignment.toNat

/-- The address of the `k`-th block, the sum of the slots before it. -/
def Loader.address (loader : Loader) (k : Nat) : Nat :=
  Size.total ((loader.blocks.take k).map loader.slotSize)

/-- The number of blocks of the functions whose names come before that of `f`. -/
def Loader.blocksBefore (loader : Loader) (f : Function) : Nat :=
  ((loader.registry.functions.takeWhile fun g => g.name < f.name).flatMap Function.staticData).length

/-- The addresses of the blocks of a function. -/
def Loader.addressesOf (loader : Loader) (f : Function) : List Nat :=
  (List.range f.staticData.length).map fun j => loader.address (loader.blocksBefore f + j)

/-! ### Sums of slots -/

theorem Loader.address_succ {loader : Loader} {k : Nat} {block : Block} (h : loader.blocks[k]? = some block) :
    loader.address (k + 1) = loader.address k + loader.slotSize block := by
  rw [Loader.address, List.take_add_one, h]
  simp [Loader.address]

/-- Behind the last block the sums do not grow any more. -/
theorem Loader.address_of_length_le {loader : Loader} {k : Nat} (h : loader.blocks.length ≤ k) :
    loader.address (k + 1) = loader.address k := by
  rw [Loader.address, Loader.address, List.take_of_length_le h, List.take_of_length_le (by omega)]

theorem Loader.address_mono {loader : Loader} {j k : Nat} (h : j ≤ k) : loader.address j ≤ loader.address k := by
  obtain ⟨n, rfl⟩ := Nat.exists_eq_add_of_le h
  rw [Loader.address, Loader.address, List.take_add, List.map_append, Size.total_append]
  omega

/-- The slot of a block ends at or before the address of every later block. -/
theorem Loader.address_add_slotSize_le {loader : Loader} {j k : Nat} {block : Block}
    (h : loader.blocks[j]? = some block) (hjk : j < k) :
    loader.address j + loader.slotSize block ≤ loader.address k := by
  rw [← Loader.address_succ h]
  exact Loader.address_mono hjk

theorem Loader.alignment_dvd_address (loader : Loader) (k : Nat) :
    loader.config.staticDataAlignment.toNat ∣ loader.address k := by
  induction k with
  | zero => simp [Loader.address]
  | succ k ih =>
    cases hblock : loader.blocks[k]? with
    | none => rwa [Loader.address_of_length_le (List.getElem?_eq_none_iff.1 hblock)]
    | some block =>
      rw [Loader.address_succ hblock]
      exact Nat.dvd_add ih (roundUp_dvd _ _)

/-- A block has room in its slot. -/
theorem Loader.Consistent.size_le_slotSize {loader : Loader} (h : loader.Consistent) (block : Block) :
    max 1 block.data.size ≤ loader.slotSize block :=
  le_roundUp _ h.alignment_pos

theorem Loader.sum_footprint (loader : Loader) (fs : List Function) :
    Size.total (fs.map loader.footprint) = Size.total ((fs.flatMap Function.staticData).map loader.slotSize) := by
  induction fs with
  | nil => rfl
  | cons f fs ih =>
    rw [List.map_cons, Size.total_cons, ih, List.flatMap_cons, List.map_append, Size.total_append]
    rfl

/-- Behind the last block all static data has been placed. -/
theorem Loader.Consistent.address_length {loader : Loader} (h : loader.Consistent) :
    loader.address loader.blocks.length = loader.staticDataSize := by
  rw [h.size_eq, Loader.sum_footprint, Loader.address, List.take_length]
  rfl

/-- Every byte of static data lies in the slot of a block. -/
theorem Loader.exists_block_of_lt {loader : Loader} {n k : Nat} (h : n < loader.address k) :
    ∃ j block, loader.blocks[j]? = some block ∧ loader.address j ≤ n ∧
      n < loader.address j + loader.slotSize block := by
  induction k with
  | zero => exact absurd h (by simp [Loader.address])
  | succ k ih =>
    by_cases hlow : n < loader.address k
    · exact ih hlow
    · cases hblock : loader.blocks[k]? with
      | none =>
        rw [Loader.address_of_length_le (List.getElem?_eq_none_iff.1 hblock)] at h
        exact absurd h hlow
      | some block =>
        have hsucc := Loader.address_succ hblock
        exact ⟨k, block, hblock, by omega, by omega⟩

/-! ### The walk of the linker -/

theorem length_blockAddresses (alignment start : Nat) (blocks : List Block) :
    (blockAddresses alignment start blocks).length = blocks.length := by
  induction blocks generalizing start with
  | nil => rfl
  | cons block blocks ih => simp [blockAddresses, ih]

theorem blockAddresses_append (alignment start : Nat) (before after : List Block) :
    blockAddresses alignment start (before ++ after) =
      blockAddresses alignment start before ++
        blockAddresses alignment (start + Size.total (before.map (Block.slotSize · alignment))) after := by
  induction before generalizing start with
  | nil => simp [blockAddresses]
  | cons block before ih =>
    simp only [List.cons_append, blockAddresses, ih, List.map_cons, Size.total_cons, Nat.add_assoc]

theorem getElem?_blockAddresses (alignment start : Nat) (blocks : List Block) (k : Nat) :
    (blockAddresses alignment start blocks)[k]? =
      blocks[k]?.map fun _ => start + Size.total ((blocks.take k).map (Block.slotSize · alignment)) := by
  induction blocks generalizing start k with
  | nil => simp [blockAddresses]
  | cons block blocks ih =>
    cases k with
    | zero => simp [blockAddresses]
    | succ k =>
      simp only [blockAddresses, List.getElem?_cons_succ, ih, List.take_succ_cons, List.map_cons, Size.total_cons,
        Nat.add_assoc]

/-- Walking through the functions is walking through all their blocks. -/
private theorem flatMap_placeFunctions (alignment start : Nat) (fs : List Function) :
    ((placeFunctions alignment start fs).flatMap fun (f, addresses) => f.staticData.zip addresses) =
      (fs.flatMap Function.staticData).zip (blockAddresses alignment start (fs.flatMap Function.staticData)) := by
  induction fs generalizing start with
  | nil => rfl
  | cons f fs ih =>
    rw [placeFunctions, List.flatMap_cons, ih, List.flatMap_cons, blockAddresses_append,
      List.zip_append (length_blockAddresses _ _ _).symm]
    rfl

theorem Loader.getElem?_placements (loader : Loader) (k : Nat) :
    loader.placements[k]? = loader.blocks[k]?.map fun block => (block, loader.address k) := by
  have hwalk : loader.placements = loader.blocks.zip
      (blockAddresses loader.config.staticDataAlignment.toNat 0 loader.blocks) :=
    flatMap_placeFunctions _ _ _
  rw [hwalk]
  cases hblock : loader.blocks[k]? with
  | none =>
    have hlen := List.getElem?_eq_none_iff.1 hblock
    rw [Option.map_none, List.getElem?_eq_none_iff, List.length_zip]
    omega
  | some block =>
    have haddress : (blockAddresses loader.config.staticDataAlignment.toNat 0 loader.blocks)[k]? =
        some (loader.address k) := by
      rw [getElem?_blockAddresses, hblock, Nat.zero_add]
      rfl
    exact List.getElem?_zip_eq_some.2 ⟨hblock, haddress⟩

theorem Loader.mem_placements {loader : Loader} {block : Block} {address : Nat} :
    (block, address) ∈ loader.placements ↔ ∃ k : Nat, loader.blocks[k]? = some block ∧ address = loader.address k := by
  rw [List.mem_iff_getElem?]
  constructor
  · rintro ⟨k, hk⟩
    rw [Loader.getElem?_placements] at hk
    obtain ⟨b, hb, heq⟩ := Option.map_eq_some_iff.1 hk
    cases heq
    exact ⟨k, hb, rfl⟩
  · rintro ⟨k, hk, rfl⟩
    exact ⟨k, by rw [Loader.getElem?_placements, hk]; rfl⟩

/-! ### The bytes that are written -/

private def place (memory : Memory) (placement : Block × Nat) : Memory :=
  memory.overwrite placement.2 placement.1.data.toList

private theorem sameShape_foldl_place (placements : List (Block × Nat)) (memory : Memory) :
    (placements.foldl place memory).SameShape memory := by
  induction placements generalizing memory with
  | nil => exact Memory.SameShape.refl _
  | cons placement placements ih => exact (ih _).trans (memory.sameShape_overwrite _ _)

/-- A byte that no placement covers is kept. -/
private theorem getElem?_foldl_place {placements : List (Block × Nat)} {n : Nat}
    (h : ∀ placement ∈ placements, n < placement.2 ∨ placement.2 + placement.1.data.size ≤ n) (memory : Memory) :
    (placements.foldl place memory).bytes[n]? = memory.bytes[n]? := by
  induction placements generalizing memory with
  | nil => rfl
  | cons placement placements ih =>
    rw [List.foldl_cons, ih fun p hp => h p (by simp [hp])]
    have hout := h placement (by simp)
    exact Bytes.getElem?_overwrite_of_outside (by simpa using hout)

theorem Loader.sameShape_memory (loader : Loader) (layout : Layout) :
    (loader.memory layout).SameShape (Memory.zeros layout) :=
  sameShape_foldl_place loader.placements (Memory.zeros layout)

/-- What is in no block is zero. -/
theorem Loader.getElem?_memory_of_gap {loader : Loader} {layout : Layout} {n : Nat} (hn : n < layout.stop)
    (h : ∀ (k : Nat) (block : Block), loader.blocks[k]? = some block →
      n < loader.address k ∨ loader.address k + block.data.size ≤ n) :
    (loader.memory layout).bytes[n]? = some 0 := by
  have hkept : (loader.memory layout).bytes[n]? = (Memory.zeros layout).bytes[n]? := by
    refine getElem?_foldl_place ?_ (Memory.zeros layout)
    rintro ⟨block, address⟩ hmem
    obtain ⟨k, hk, rfl⟩ := Loader.mem_placements.1 hmem
    exact h k block hk
  rw [hkept, Memory.zeros, Bytes.getElem?_zeros, if_pos hn]

/-- Each block stands at its address. -/
theorem Loader.Consistent.getElem?_memory_of_block {loader : Loader} (h : loader.Consistent) {layout : Layout}
    {k : Nat} {block : Block} (hk : loader.blocks[k]? = some block)
    (hfit : loader.address k + block.data.size ≤ layout.stop) {n : Nat} (hn : n < block.data.size) :
    (loader.memory layout).bytes[loader.address k + n]? = block.data[n]? := by
  -- split the placements around that of the block
  have hp : loader.placements[k]? = some (block, loader.address k) := by
    rw [Loader.getElem?_placements, hk]
    rfl
  obtain ⟨hlt, hget⟩ := List.getElem?_eq_some_iff.1 hp
  have hsplit : loader.placements = loader.placements.take k ++ (block, loader.address k) ::
      loader.placements.drop (k + 1) := by
    rw [← hget, ← List.drop_eq_getElem_cons hlt, List.take_append_drop]
  have hmemory : loader.memory layout = (loader.placements.drop (k + 1)).foldl place
      (place ((loader.placements.take k).foldl place (Memory.zeros layout)) (block, loader.address k)) := by
    rw [← List.foldl_cons, ← List.foldl_append, ← hsplit]
    rfl
  have hlater : ∀ placement ∈ loader.placements.drop (k + 1),
      loader.address k + n < placement.2 ∨ placement.2 + placement.1.data.size ≤ loader.address k + n := by
    intro placement hmem
    obtain ⟨j, hj⟩ := List.mem_iff_getElem?.1 hmem
    rw [List.getElem?_drop, Loader.getElem?_placements] at hj
    obtain ⟨later, -, rfl⟩ := Option.map_eq_some_iff.1 hj
    have hslot := h.size_le_slotSize block
    have hnext := Loader.address_add_slotSize_le hk (show k < k + 1 + j by omega)
    left
    dsimp only
    omega
  have hsize := (sameShape_foldl_place (loader.placements.take k) (Memory.zeros layout)).size_eq
  have hzeros : (Memory.zeros layout).bytes.size = layout.stop := Bytes.size_zeros _
  rw [hmemory, getElem?_foldl_place hlater]
  show (Bytes.overwrite _ (loader.address k) block.data.toList)[loader.address k + n]? = _
  rw [Bytes.getElem?_overwrite_of_inside, Array.getElem?_toList]
  · simpa using hn
  · rw [hsize, hzeros]
    simpa using hfit

end StackMachine
