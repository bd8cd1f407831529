import StackMachine.Proofs.Function.Relocated

/-!
# What relocation keeps

Relocating an accepted function goes through, and its result is accepted again.  Read instruction by instruction, the
two codes have the same offsets and opcodes, and an operand differs only where a load is recorded
(`Function.RelocatesTo`).

An offset may be recorded by several blocks, and several times by one of them.  Addresses are written in order of
blocks, so the load gets the address of the last block that records it (`lookup_relocations_of_last`).
-/

namespace StackMachine

/-- The block with the given number records a load at the offset. -/
def Function.RecordsLoad (f : Function) (number offset : Nat) : Prop :=
  ∃ block, f.staticData[number]? = some block ∧ ∃ recorded ∈ block.loadOffsets, recorded.toNat = offset

/-- The block with the given number is the last one that records a load at the offset. -/
def Function.RecordsLoadLast (f : Function) (number offset : Nat) : Prop :=
  f.RecordsLoad number offset ∧ ∀ later, number < later → ¬ f.RecordsLoad later offset

/-- How a function that is accepted and its relocated form compare. -/
structure Function.RelocatesTo (f : Function) (addresses : List Word) (g : Function) : Prop where
  relocate : f.relocate addresses = .ok g
  accepted : g.verify = .ok ()
  name_eq : g.name = f.name
  localOffsets_eq : g.localOffsets = f.localOffsets
  localSize_eq : g.localSize = f.localSize
  staticData_eq : g.staticData = f.staticData
  size_code : g.code.size = f.code.size
  offsets_eq : (decode g.code).instructions.map Prod.fst = (decode f.code).instructions.map Prod.fst
  opcodes_eq : (decode g.code).instructions.map (·.2.opcode) = (decode f.code).instructions.map (·.2.opcode)
  /-- Where no load is recorded the operand is kept. -/
  kept : ∀ (k offset : Nat) (i : Instruction), (decode f.code).instructions[k]? = some (offset, i) →
    (∀ number, ¬ f.RecordsLoad number offset) → (decode g.code).instructions[k]? = some (offset, i)
  /-- Where loads are recorded the operand is the address of the last block that records one. -/
  replaced : ∀ (k offset : Nat) (i : Instruction), (decode f.code).instructions[k]? = some (offset, i) →
    ∀ (number : Nat) (address : Word), f.RecordsLoadLast number offset → addresses[number]? = some address →
      (decode g.code).instructions[k]? = some (offset, ⟨i.opcode, .dataAddress address⟩)

/-! ### The address that is written last -/

theorem Function.recordsLoad_of_mem_relocations {f : Function} {addresses : List Word} {offset : Nat} {address : Word}
    (h : (offset, address) ∈ f.relocations addresses) : ∃ number, f.RecordsLoad number offset := by
  obtain ⟨number, block, hblock, -, recorded, hrecorded, rfl⟩ := Function.mem_relocations.1 h
  exact ⟨number, block, hblock, recorded, hrecorded, rfl⟩

theorem Function.lookup_relocations_of_not_recorded {f : Function} {offset : Nat}
    (h : ∀ number, ¬ f.RecordsLoad number offset) (addresses : List Word) :
    (f.relocations addresses).reverse.lookup offset = none := by
  rw [List.lookup_eq_none_iff]
  rintro ⟨o, address⟩ hmem
  obtain ⟨number, hrecords⟩ := Function.recordsLoad_of_mem_relocations (List.mem_reverse.1 hmem)
  rw [bne_iff_ne]
  rintro rfl
  exact h number hrecords

/-- In a list with one value only, every key that occurs has that value. -/
private theorem lookup_of_forall_eq {l : List (Nat × Word)} {offset : Nat} {address : Word}
    (hmem : (offset, address) ∈ l) (hall : ∀ entry ∈ l, entry.2 = address) : l.lookup offset = some address := by
  cases hfound : l.lookup offset with
  | none => simpa using List.lookup_eq_none_iff.1 hfound _ hmem
  | some found =>
    obtain ⟨before, after, rfl, -⟩ := List.lookup_eq_some_iff.1 hfound
    have heq := hall (offset, found) (by simp)
    exact congrArg some heq

/-- The address written last at an offset is that of the last block that records it. -/
theorem Function.lookup_relocations_of_last {f : Function} {addresses : List Word} {number offset : Nat}
    {address : Word} (h : f.RecordsLoadLast number offset) (haddress : addresses[number]? = some address) :
    (f.relocations addresses).reverse.lookup offset = some address := by
  obtain ⟨⟨block, hblock, recorded, hrecorded, hoffset⟩, hlater⟩ := h
  -- the relocations of earlier blocks, of this block and of later blocks
  let sites := fun (entry : Block × Word) => entry.1.loadOffsets.map fun o => (o.toNat, entry.2)
  let pairs := f.staticData.zip addresses
  have hpair : pairs[number]? = some (block, address) := List.getElem?_zip_eq_some.2 ⟨hblock, haddress⟩
  obtain ⟨hlt, hget⟩ := List.getElem?_eq_some_iff.1 hpair
  have hsplit : pairs = pairs.take number ++ (block, address) :: pairs.drop (number + 1) := by
    rw [← hget, ← List.drop_eq_getElem_cons hlt, List.take_append_drop]
  have hrelocations : f.relocations addresses =
      (pairs.take number).flatMap sites ++ (sites (block, address) ++ (pairs.drop (number + 1)).flatMap sites) := by
    rw [← List.flatMap_cons, ← List.flatMap_append, ← hsplit]
    rfl
  have hnone : ((pairs.drop (number + 1)).flatMap sites).reverse.lookup offset = none := by
    rw [List.lookup_eq_none_iff]
    rintro ⟨o, a⟩ hmem
    obtain ⟨⟨other, b⟩, hother, hsite⟩ := List.mem_flatMap.1 (List.mem_reverse.1 hmem)
    obtain ⟨n, hn⟩ := List.mem_iff_getElem?.1 hother
    rw [List.getElem?_drop, List.getElem?_zip_eq_some] at hn
    obtain ⟨r, hr, heq⟩ := List.mem_map.1 hsite
    cases heq
    rw [bne_iff_ne]
    intro heq
    exact hlater (number + 1 + n) (by omega) ⟨other, hn.1, r, hr, heq.symm⟩
  have hsome : (sites (block, address)).reverse.lookup offset = some address := by
    apply lookup_of_forall_eq
    · rw [List.mem_reverse, ← hoffset]
      exact List.mem_map.2 ⟨recorded, hrecorded, rfl⟩
    · intro entry hentry
      obtain ⟨o, -, rfl⟩ := List.mem_map.1 (List.mem_reverse.1 hentry)
      rfl
  rw [hrelocations, List.reverse_append, List.reverse_append, List.lookup_append, List.lookup_append, hnone, hsome]
  rfl

/-! ### The relocated function -/

/-- The sweep over relocated code finds the instructions with the addresses that were written last. -/
theorem Function.VerifiedBy.getElem?_decode_withAddresses {f : Function} {is : List Instruction}
    (h : f.VerifiedBy is) (addresses : List Word) {k offset : Nat} {i : Instruction}
    (hk : (decode f.code).instructions[k]? = some (offset, i)) :
    (decode (f.withAddresses addresses).code).instructions[k]? =
      some (offset, match (f.relocations addresses).reverse.lookup offset with
        | some address => ⟨i.opcode, .dataAddress address⟩
        | none => i) := by
  have hlinked := h.withAddresses addresses
  rw [h.code_eq, decode_encodeAll h.wellFormed, getElem?_withOffsets, Nat.zero_add] at hk
  obtain ⟨i', hi, heq⟩ := Option.map_eq_some_iff.1 hk
  cases heq
  rw [hlinked.code_eq, decode_encodeAll hlinked.wellFormed, getElem?_withOffsets, getElem?_foldl_readdress, hi,
    offsetAt_foldl_readdress, Nat.zero_add]
  rfl

/-- Relocation goes through and changes nothing but the operands of recorded loads. -/
theorem Function.relocate_preserves {f : Function} (hpatched : f.patched = false) (hverify : f.verify = .ok ())
    {addresses : List Word} (hcount : addresses.length = f.staticData.length) :
    ∃ g, f.RelocatesTo addresses g := by
  obtain ⟨is, h⟩ := Function.verify_eq_ok_iff.1 hverify
  have hlinked := h.withAddresses addresses
  have hops := map_opcode_foldl_readdress (f.relocations addresses) is
  have hdecode : ∀ {g : Function} {js : List Instruction}, g.VerifiedBy js →
      (decode g.code).instructions = withOffsets 0 js := by
    intro g js hg
    rw [hg.code_eq, decode_encodeAll hg.wellFormed]
  refine ⟨f.withAddresses addresses, ?_⟩
  constructor
  case relocate => exact Function.relocate_of_verifiedBy h hpatched hcount
  case accepted => exact Function.verify_eq_ok_iff.2 ⟨_, hlinked⟩
  case name_eq | localOffsets_eq | localSize_eq | staticData_eq => rfl
  case size_code => exact h.size_withAddresses addresses
  case offsets_eq =>
    rw [hdecode hlinked, hdecode h]
    apply List.ext_getElem?
    intro k
    rw [List.getElem?_map, List.getElem?_map, getElem?_withOffsets, getElem?_withOffsets, getElem?_foldl_readdress]
    cases is[k]? with
    | none => rfl
    | some i => simp [offsetAt_foldl_readdress]
  case opcodes_eq =>
    have hsnd : ∀ js, (withOffsets 0 js).map (·.2.opcode) = js.map Instruction.opcode := by
      intro js
      apply List.ext_getElem?
      intro k
      rw [List.getElem?_map, List.getElem?_map, getElem?_withOffsets]
      cases js[k]? <;> rfl
    rw [hdecode hlinked, hdecode h, hsnd, hsnd, hops]
  case kept =>
    intro k offset i hk hnone
    rw [h.getElem?_decode_withAddresses addresses hk, Function.lookup_relocations_of_not_recorded hnone]
  case replaced =>
    intro k offset i hk number address hlast haddress
    rw [h.getElem?_decode_withAddresses addresses hk, Function.lookup_relocations_of_last hlast haddress]

/-- Two blocks record the same load, the first of them twice. -/
def sharedLoad : Function :=
  { name := "shared", localOffsets := [], localSize := 0
    code := encodeAll [.plain .ret, ⟨.loadStaticAddress, .dataAddress 0⟩, ⟨.loadStaticAddress, .dataAddress 1⟩]
    staticData := [⟨#[1], [1, 1, 6], none⟩, ⟨#[2], [1], none⟩] }

theorem Function.relocate_preserves_sharedLoad :
    sharedLoad.patched = false ∧ sharedLoad.verify = .ok () ∧ ∃ g, sharedLoad.RelocatesTo [16, 20] g ∧
      (decode g.code).instructions[1]? = some (1, ⟨.loadStaticAddress, .dataAddress 20⟩) := by
  have hverify : sharedLoad.verify = .ok () := by decide +kernel
  have hcount : ([16, 20] : List Word).length = sharedLoad.staticData.length := rfl
  obtain ⟨g, hg⟩ := Function.relocate_preserves rfl hverify hcount
  refine ⟨rfl, hverify, g, hg, hg.replaced 1 1 ⟨.loadStaticAddress, .dataAddress 0⟩ ?_ 1 20 ?_ rfl⟩
  · decide +kernel
  · refine ⟨⟨_, rfl, 1, by simp, rfl⟩, ?_⟩
    rintro later hlater ⟨block, hblock, -⟩
    have hlt := (List.getElem?_eq_some_iff.1 hblock).1
    have hlength : sharedLoad.staticData.length = 2 := rfl
    omega

end StackMachine
