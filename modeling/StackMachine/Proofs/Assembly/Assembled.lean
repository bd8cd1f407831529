import StackMachine.Assembly.Function
import StackMachine.Proofs.Function.Relocated

/-!
# What assembling makes

The code of an assembled function is that of the instructions with the operands that assembling finds, and the offset of
a position is the offset in that sequence; since the function has been verified, that sequence is the one that makes it
acceptable (`Builder.Assembles`).  The locals stand in the frame one after the other (`layOutLocals?_eq_some`).

A static load is recorded at the block that it names and at no other.  So after relocation its operand is the address of
that block (`getElem?_readdress_static`), and all other instructions are as they were (`getElem?_readdress_other`).
-/

namespace StackMachine

/-- The instructions of the function, a static load with the number of its block. -/
def Builder.instructions (builder : Builder) : List Instruction :=
  builder.emissions.toList.map (builder.instruction builder.offsetOf)

theorem Builder.getElem?_instructions (builder : Builder) (k : Nat) :
    builder.instructions[k]? = builder.emissions[k]?.map (builder.instruction builder.offsetOf) := by
  rw [Builder.instructions, List.getElem?_map, Array.getElem?_toList]

theorem Builder.wellFormed_instructions (builder : Builder) : WellFormedSequence builder.instructions := by
  intro i hi
  obtain ⟨emission, -, rfl⟩ := List.mem_map.1 hi
  cases emission with
  | plain opcode => exact opcode.2.symm
  | immediate | localAddress | staticAddress => rfl
  | branch conditional label => cases conditional <;> rfl

theorem Builder.code_eq_encodeAll (builder : Builder) : builder.code = encodeAll builder.instructions := by
  rw [Builder.code_eq, encodeAll, Builder.instructions, List.flatMap_map]

/-- Offsets of positions are offsets in the sequence of instructions. -/
theorem Builder.offsetAt_instructions (builder : Builder) (k : Nat) :
    offsetAt builder.instructions k = builder.offsetOf k := by
  rw [offsetAt, StackMachine.codeLength, Builder.offsetOf, Builder.instructions, ← List.map_take, List.map_map]
  rfl

theorem Builder.codeLength_instructions (builder : Builder) :
    StackMachine.codeLength builder.instructions = builder.codeLength := by
  rw [StackMachine.codeLength, Builder.codeLength, Builder.instructions, List.map_map]
  rfl

theorem Builder.offsetOf_le (builder : Builder) (k : Nat) : builder.offsetOf k ≤ builder.codeLength := by
  rw [← builder.offsetAt_instructions, ← builder.codeLength_instructions]
  exact offsetAt_le _ _

theorem Builder.offsetOf_of_size_le {builder : Builder} {k : Nat} (h : builder.emissions.size ≤ k) :
    builder.offsetOf k = builder.codeLength := by
  rw [← builder.offsetAt_instructions, ← builder.codeLength_instructions]
  exact offsetAt_of_length_le (by simpa [Builder.instructions] using h)

theorem Builder.offsetOf_inj {builder : Builder} {j k : Nat} (hj : j < builder.emissions.size)
    (hk : k < builder.emissions.size) (h : builder.offsetOf j = builder.offsetOf k) : j = k := by
  have hlength : builder.instructions.length = builder.emissions.size := by simp [Builder.instructions]
  rw [← builder.offsetAt_instructions, ← builder.offsetAt_instructions] at h
  exact offsetAt_inj (by omega) (by omega) h

/-- An offset that is not too large is kept as a word. -/
theorem toInt_ofNat_of_le {n : Nat} (h : n ≤ maxWord) : (Int32.ofNat n).toInt = n := by
  unfold maxWord at h
  exact Int32.toInt_ofNat_of_lt (by omega)

/-- Offsets of code that is not too long are recorded as they are. -/
theorem Builder.toNat_ofNat_offsetOf {builder : Builder} (h : builder.codeLength ≤ maxWord) (k : Nat) :
    (UInt64.ofNat (builder.offsetOf k)).toNat = builder.offsetOf k := by
  have hle := builder.offsetOf_le k
  unfold maxWord at h
  exact UInt64.toNat_ofNat_of_lt' (by unfold UInt64.size; omega)

/-! ### The frame -/

/-- Each local starts where the locals before it end, and the frame ends where they all do. -/
theorem layOutLocals?_eq_some {sizes : List Nat} {start : Nat} {offsets : List UInt32} {total : UInt32}
    (h : layOutLocals? start sizes = some (offsets, total)) (hstart : start ≤ maxWord) :
    total = UInt32.ofNat (start + Size.total sizes) ∧ start + Size.total sizes ≤ maxWord ∧
      ∀ k, offsets[k]? =
        if k < sizes.length then some (UInt32.ofNat (start + Size.total (sizes.take k))) else none := by
  induction sizes generalizing start offsets with
  | nil =>
    cases h
    exact ⟨by simp, by simpa using hstart, fun k => by simp⟩
  | cons size sizes ih =>
    unfold layOutLocals? at h
    split at h
    · rename_i hfit
      obtain ⟨⟨rest, total'⟩, hrest, heq⟩ := Option.map_eq_some_iff.1 h
      cases heq
      obtain ⟨htotal, hle, hoffsets⟩ := ih hrest hfit
      refine ⟨?_, ?_, ?_⟩
      · rw [htotal, Size.total_cons, Nat.add_assoc]
      · rw [Size.total_cons]
        omega
      · intro k
        cases k with
        | zero => simp
        | succ k =>
          rw [List.getElem?_cons_succ, hoffsets, List.take_succ_cons, Size.total_cons, List.length_cons, Nat.add_assoc]
          simp only [Nat.add_lt_add_iff_right]
    · cases h

theorem total_take_le (sizes : List Nat) (k : Nat) : Size.total (sizes.take k) ≤ Size.total sizes := by
  have hsplit := congrArg Size.total (List.take_append_drop k sizes)
  rw [Size.total_append] at hsplit
  omega

/-- A frame has an offset for each local, and no offset is cut short. -/
theorem layOutLocals?_exact {sizes : List Nat} {offsets : List UInt32} {size : UInt32}
    (h : layOutLocals? 0 sizes = some (offsets, size)) :
    offsets.length = sizes.length ∧ Size.total sizes ≤ maxWord ∧ size.toNat = Size.total sizes ∧
      ∀ (k : Nat) (offset : UInt32), offsets[k]? = some offset → offset.toNat = Size.total (sizes.take k) := by
  obtain ⟨htotal, hle, hoffsets⟩ := layOutLocals?_eq_some h (Nat.zero_le _)
  simp only [Nat.zero_add] at htotal hle hoffsets
  have hexact : ∀ n, n ≤ Size.total sizes → (UInt32.ofNat n).toNat = n := by
    intro n hn
    unfold maxWord at hle
    exact UInt32.toNat_ofNat_of_lt' (by unfold UInt32.size; omega)
  have hend : ∀ k, offsets.length ≤ k ↔ sizes.length ≤ k := by
    intro k
    rw [← List.getElem?_eq_none_iff, hoffsets]
    by_cases hk : k < sizes.length <;> simp [hk]
    omega
  have hfirst := hend sizes.length
  have hsecond := hend offsets.length
  refine ⟨by omega, hle, by rw [htotal, hexact _ (Nat.le_refl _)], fun k offset hk => ?_⟩
  rw [hoffsets] at hk
  split at hk
  · cases hk
    exact hexact _ (total_take_le sizes k)
  · cases hk

/-! ### Assembling -/

/-- What is known of a function and the builder that it was assembled from. -/
structure Builder.Assembles (builder : Builder) (f : Function) : Prop where
  codeLength_le : builder.codeLength ≤ maxWord
  /-- Every branch leads to a label that is set. -/
  labels : ∀ (k : Nat) (conditional : Bool) (label : Label), builder.emissions[k]? = some (.branch conditional label) →
    ∃ position : Nat, builder.labels[label.index.toNat]? = some (some position)
  /-- Every static load names a block. -/
  blocks : ∀ (k : Nat) (block : BlockHandle), builder.emissions[k]? = some (.staticAddress block) →
    block.index.toNat < builder.blocks.size
  frame : layOutLocals? 0 builder.localSizes = some (f.localOffsets, f.localSize)
  staticData_eq : f.staticData = builder.staticData
  verified : f.VerifiedBy builder.instructions

theorem Builder.branchFault?_eq_none_iff {builder : Builder} {emission : Emission} :
    builder.branchFault? emission = none ↔ ∀ conditional label, emission = .branch conditional label →
      ∃ position : Nat, builder.labels[label.index.toNat]? = some (some position) := by
  cases emission with
  | plain | immediate | localAddress | staticAddress => exact iff_of_true rfl nofun
  | branch conditional label =>
    unfold Builder.branchFault?
    dsimp only
    constructor
    · intro h _ _ heq
      cases heq
      split at h
      · cases h
      · cases h
      · rename_i position hposition
        exact ⟨position, hposition⟩
    · intro h
      obtain ⟨position, hposition⟩ := h conditional label rfl
      rw [hposition]

theorem Builder.blockFault?_eq_none_iff {builder : Builder} {emission : Emission} :
    builder.blockFault? emission = none ↔ ∀ block, emission = .staticAddress block →
      block.index.toNat < builder.blocks.size := by
  cases emission with
  | plain | immediate | localAddress | branch => exact iff_of_true rfl nofun
  | staticAddress block => simp [Builder.blockFault?]

/-- No handle is at fault exactly if every branch leads to a label that is set and every static load names a block. -/
theorem Builder.handleFault?_eq_none_iff {builder : Builder} :
    builder.handleFault? = none ↔
      (∀ (k : Nat) (conditional : Bool) (label : Label), builder.emissions[k]? = some (.branch conditional label) →
        ∃ position : Nat, builder.labels[label.index.toNat]? = some (some position)) ∧
      ∀ (k : Nat) (block : BlockHandle), builder.emissions[k]? = some (.staticAddress block) →
        block.index.toNat < builder.blocks.size := by
  have hmem : ∀ {emission : Emission}, emission ∈ builder.emissions.toList ↔
      ∃ k : Nat, builder.emissions[k]? = some emission := by
    intro emission
    rw [Array.mem_toList_iff, Array.mem_iff_getElem?]
  unfold Builder.handleFault?
  rw [Option.or_eq_none_iff, List.findSome?_eq_none_iff, List.findSome?_eq_none_iff]
  constructor
  · rintro ⟨hbranches, hblocks⟩
    refine ⟨fun k conditional label hk => ?_, fun k block hk => ?_⟩
    · exact Builder.branchFault?_eq_none_iff.1 (hbranches _ (hmem.2 ⟨k, hk⟩)) conditional label rfl
    · exact Builder.blockFault?_eq_none_iff.1 (hblocks _ (hmem.2 ⟨k, hk⟩)) block rfl
  · rintro ⟨hlabels, hblocks⟩
    refine ⟨fun emission hemission => ?_, fun emission hemission => ?_⟩
    · obtain ⟨k, hk⟩ := hmem.1 hemission
      refine Builder.branchFault?_eq_none_iff.2 fun conditional label heq => hlabels k conditional label ?_
      rw [hk, heq]
    · obtain ⟨k, hk⟩ := hmem.1 hemission
      refine Builder.blockFault?_eq_none_iff.2 fun block heq => hblocks k block ?_
      rw [hk, heq]

theorem layOutLocals?_of_layOutFrame {sizes : List Nat} {frame : List UInt32 × UInt32}
    (h : layOutFrame sizes = .ok frame) : layOutLocals? 0 sizes = some frame := by
  unfold layOutFrame at h
  split at h
  · cases h
  · split at h
    · rename_i hlayout
      cases h
      exact hlayout
    · cases h

theorem Builder.assembles_of_assemble {builder : Builder} {f : Function} (h : builder.assemble = .ok f) :
    builder.Assembles f := by
  unfold Builder.assemble at h
  split at h
  · cases h
  · rename_i hlength
    split at h
    · cases h
    · rename_i hhandles
      split at h
      · cases h
      · rename_i localOffsets localSize hframe
        dsimp only at h
        split at h
        · cases h
        · rename_i hverify
          cases h
          obtain ⟨hlabels, hblocks⟩ := Builder.handleFault?_eq_none_iff.1 hhandles
          refine ⟨Nat.le_of_not_lt hlength, hlabels, hblocks, layOutLocals?_of_layOutFrame hframe, rfl, ?_⟩
          -- code determines its sequence, so the verified sequence is that of the instructions
          obtain ⟨is, hverified⟩ := Function.verify_eq_ok_iff.1 hverify
          have hcode : encodeAll is = encodeAll builder.instructions :=
            hverified.code_eq.symm.trans builder.code_eq_encodeAll
          rwa [encodeAll_inj hverified.wellFormed builder.wellFormed_instructions hcode] at hverified

theorem Builder.assemble_of_toOption {builder : Builder} {f : Function} (h : builder.assemble.toOption = some f) :
    builder.assemble = .ok f := by
  cases hassemble : builder.assemble with
  | error e =>
    rw [hassemble] at h
    cases h
  | ok g =>
    rw [hassemble] at h
    cases h
    rfl

/-! ### Static loads -/

theorem Builder.mem_loadOffsets {builder : Builder} {number : Nat} {offset : UInt64} :
    offset ∈ builder.loadOffsets builder.offsetOf number ↔
      ∃ (k : Nat) (block : BlockHandle), builder.emissions[k]? = some (.staticAddress block) ∧
        block.index.toNat = number ∧ offset = UInt64.ofNat (builder.offsetOf k) := by
  unfold Builder.loadOffsets
  simp only [List.mem_filterMap, Prod.exists, List.mem_zipIdx_iff_getElem?, Array.getElem?_toList]
  constructor
  · rintro ⟨emission, k, hk, heq⟩
    cases emission with
    | staticAddress block =>
      dsimp only at heq
      split at heq
      · rename_i hnumber
        exact ⟨k, block, hk, hnumber, (Option.some.inj heq).symm⟩
      · cases heq
    | plain | immediate | localAddress | branch => cases heq
  · rintro ⟨k, block, hk, hnumber, rfl⟩
    exact ⟨.staticAddress block, k, hk, if_pos hnumber⟩

theorem Builder.getElem?_staticData (builder : Builder) (k : Nat) :
    builder.staticData[k]? = builder.blocks[k]?.map fun block =>
      ⟨block.data, builder.loadOffsets builder.offsetOf k, block.identifier⟩ := by
  rw [Builder.staticData_eq, List.getElem?_map, List.getElem?_zipIdx, Array.getElem?_toList, Option.map_map,
    Nat.zero_add]
  rfl

/-- The relocations are those of the static loads, each with the address of the block that it names. -/
theorem Builder.Assembles.mem_relocations {builder : Builder} {f : Function} (h : builder.Assembles f)
    {addresses : List Word} {offset : Nat} {address : Word} :
    (offset, address) ∈ f.relocations addresses ↔
      ∃ (k : Nat) (block : BlockHandle), builder.emissions[k]? = some (.staticAddress block) ∧
        addresses[block.index.toNat]? = some address ∧ offset = builder.offsetOf k := by
  have hexact := Builder.toNat_ofNat_offsetOf h.codeLength_le
  rw [Function.mem_relocations, h.staticData_eq]
  constructor
  · rintro ⟨number, block, hblock, haddress, o, ho, rfl⟩
    rw [builder.getElem?_staticData] at hblock
    obtain ⟨data, -, rfl⟩ := Option.map_eq_some_iff.1 hblock
    obtain ⟨k, handle, hk, rfl, rfl⟩ := Builder.mem_loadOffsets.1 ho
    exact ⟨k, handle, hk, haddress, hexact k⟩
  · rintro ⟨k, handle, hk, haddress, rfl⟩
    have hlt := h.blocks k handle hk
    have hblock := builder.getElem?_staticData handle.index.toNat
    rw [Array.getElem?_eq_getElem hlt, Option.map_some] at hblock
    have hmem := Builder.mem_loadOffsets.2 ⟨k, handle, hk, rfl, rfl⟩
    exact ⟨_, _, hblock, haddress, _, hmem, (hexact k).symm⟩

/-- After relocation a static load has the address of its block as operand. -/
theorem Builder.Assembles.getElem?_readdress_static {builder : Builder} {f : Function} (h : builder.Assembles f)
    {addresses : List Word} {k : Nat} {block : BlockHandle} {address : Word}
    (hk : builder.emissions[k]? = some (.staticAddress block))
    (haddress : addresses[block.index.toNat]? = some address) :
    ((f.relocations addresses).foldl readdress builder.instructions)[k]? =
      some ⟨.loadStaticAddress, .dataAddress address⟩ := by
  have hlookup : (f.relocations addresses).reverse.lookup (builder.offsetOf k) = some address := by
    cases hfound : (f.relocations addresses).reverse.lookup (builder.offsetOf k) with
    | none =>
      have hmem : (builder.offsetOf k, address) ∈ (f.relocations addresses).reverse :=
        List.mem_reverse.2 (h.mem_relocations.2 ⟨k, block, hk, haddress, rfl⟩)
      simpa using List.lookup_eq_none_iff.1 hfound _ hmem
    | some found =>
      -- every relocation at this offset is that of this load
      obtain ⟨before, after, hsplit, -⟩ := List.lookup_eq_some_iff.1 hfound
      have hmem : (builder.offsetOf k, found) ∈ f.relocations addresses := by
        rw [← List.mem_reverse, hsplit]
        simp
      obtain ⟨j, other, hj, hother, hoffset⟩ := h.mem_relocations.1 hmem
      have hjk := Builder.offsetOf_inj (Array.getElem?_eq_some_iff.1 hk).1 (Array.getElem?_eq_some_iff.1 hj).1 hoffset
      subst hjk
      rw [hk] at hj
      cases hj
      rw [← hother, haddress]
  rw [getElem?_foldl_readdress, builder.offsetAt_instructions, builder.getElem?_instructions, hk, hlookup]
  rfl

/-- Relocation leaves all other instructions as they were. -/
theorem Builder.Assembles.getElem?_readdress_other {builder : Builder} {f : Function} (h : builder.Assembles f)
    {addresses : List Word} {k : Nat} {emission : Emission} (hk : builder.emissions[k]? = some emission)
    (hother : ∀ block, emission ≠ .staticAddress block) :
    ((f.relocations addresses).foldl readdress builder.instructions)[k]? =
      some (builder.instruction builder.offsetOf emission) := by
  have hlookup : (f.relocations addresses).reverse.lookup (builder.offsetOf k) = none := by
    rw [List.lookup_eq_none_iff]
    rintro ⟨offset, address⟩ hmem
    obtain ⟨j, block, hj, -, rfl⟩ := h.mem_relocations.1 (List.mem_reverse.1 hmem)
    rw [bne_iff_ne]
    intro hoffset
    have hjk := Builder.offsetOf_inj (Array.getElem?_eq_some_iff.1 hk).1 (Array.getElem?_eq_some_iff.1 hj).1 hoffset
    subst hjk
    rw [hk] at hj
    exact hother block (Option.some.inj hj)
  rw [getElem?_foldl_readdress, builder.offsetAt_instructions, builder.getElem?_instructions, hk, hlookup]
  rfl

end StackMachine
