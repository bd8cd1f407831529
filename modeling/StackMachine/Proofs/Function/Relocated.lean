import Mathlib.Data.List.Induction
import StackMachine.Function.Relocation
import StackMachine.Proofs.Function.Verified

/-!
# Relocation on sequences of instructions

Writing an address behind the opcode of a load replaces the operand of that one instruction and nothing else, since no
other instruction reaches into its bytes (`encodeAll_readdress`).  So relocating an accepted function goes through, and
leaves a function that is acceptable by the sequence with the replaced operands: `relocate_of_verifiedBy` and
`VerifiedBy.withAddresses`.  Opcodes, and with them all offsets, stay as they are; the operand at an offset is the
address that was written there last (`getElem?_foldl_readdress`).
-/

namespace StackMachine

/-- The sequence with an address as the operand of the instruction at an offset. -/
def readdress (is : List Instruction) (relocation : Nat × Word) : List Instruction :=
  is.mapIdx fun k i => if offsetAt is k = relocation.1 then ⟨i.opcode, .dataAddress relocation.2⟩ else i

/-- The function with addresses written into its code. -/
def Function.withAddresses (f : Function) (addresses : List Word) : Function :=
  { f with code := (f.relocations addresses).foldl writeAddress f.code, patched := true }

/-! ### Opcodes and offsets -/

theorem codeLength_congr {is js : List Instruction} (h : is.map Instruction.opcode = js.map Instruction.opcode) :
    codeLength is = codeLength js := by
  have hlen : ∀ l : List Instruction,
      codeLength l = Size.total ((l.map Instruction.opcode).map Opcode.encodedLength) := by
    intro l
    rw [List.map_map]
    rfl
  rw [hlen, hlen, h]

theorem offsetAt_congr {is js : List Instruction} (h : is.map Instruction.opcode = js.map Instruction.opcode)
    (k : Nat) : offsetAt is k = offsetAt js k := by
  apply codeLength_congr
  rw [List.map_take, List.map_take, h]

theorem length_congr {is js : List Instruction} (h : is.map Instruction.opcode = js.map Instruction.opcode) :
    is.length = js.length := by
  simpa using congrArg List.length h

@[simp] theorem map_opcode_readdress (is : List Instruction) (relocation : Nat × Word) :
    (readdress is relocation).map Instruction.opcode = is.map Instruction.opcode := by
  apply List.ext_getElem?
  intro k
  simp only [readdress, List.getElem?_map, List.getElem?_mapIdx, Option.map_map]
  congr 1
  funext i
  simp only [Function.comp_apply]
  split <;> rfl

theorem map_opcode_foldl_readdress (relocations : List (Nat × Word)) (is : List Instruction) :
    (relocations.foldl readdress is).map Instruction.opcode = is.map Instruction.opcode := by
  induction relocations generalizing is with
  | nil => rfl
  | cons relocation relocations ih => rw [List.foldl_cons, ih, map_opcode_readdress]

theorem offsetAt_foldl_readdress (relocations : List (Nat × Word)) (is : List Instruction) (k : Nat) :
    offsetAt (relocations.foldl readdress is) k = offsetAt is k :=
  offsetAt_congr (map_opcode_foldl_readdress relocations is) k

theorem getElem?_readdress (is : List Instruction) (relocation : Nat × Word) (k : Nat) :
    (readdress is relocation)[k]? =
      is[k]?.map fun i => if offsetAt is k = relocation.1 then ⟨i.opcode, .dataAddress relocation.2⟩ else i := by
  rw [readdress, List.getElem?_mapIdx]

/-- The operand at an offset becomes the address written there last. -/
theorem getElem?_foldl_readdress (relocations : List (Nat × Word)) (is : List Instruction) (k : Nat) :
    (relocations.foldl readdress is)[k]? =
      is[k]?.map fun i =>
        match relocations.reverse.lookup (offsetAt is k) with
        | some address => ⟨i.opcode, .dataAddress address⟩
        | none => i := by
  -- the last relocation is looked up first, so the induction takes relocations off the end
  induction relocations using List.reverseRecOn with
  | nil => simp
  | append_singleton relocations relocation ih =>
    rw [List.foldl_append, List.foldl_cons, List.foldl_nil, getElem?_readdress, ih, offsetAt_foldl_readdress,
      Option.map_map, List.reverse_append, List.reverse_singleton, List.singleton_append, List.lookup_cons]
    congr 1
    funext i
    simp only [Function.comp_apply]
    by_cases h : offsetAt is k = relocation.1
    · rw [if_pos h, beq_iff_eq.2 h]
      split <;> rfl
    · rw [if_neg h, beq_eq_false_iff_ne.2 h]

/-! ### One address -/

private theorem overwrite_append (before after : List UInt8) {old new : List UInt8}
    (h : old.length = new.length) :
    Bytes.overwrite (before ++ old ++ after).toArray before.length new = (before ++ new ++ after).toArray := by
  apply Array.ext_getElem?
  intro n
  rw [Bytes.getElem?_overwrite]
  simp only [List.size_toArray, List.length_append, List.getElem?_toArray, List.append_assoc]
  by_cases hlow : n < before.length
  · rw [if_neg (by omega), List.getElem?_append_left hlow, List.getElem?_append_left hlow]
  · have hright : ∀ l : List UInt8, (before ++ l)[n]? = l[n - before.length]? :=
      fun l => List.getElem?_append_right (by omega)
    rw [hright, hright]
    by_cases hin : n - before.length < new.length
    · rw [if_pos (by omega), List.getElem?_append_left hin]
    · rw [if_neg (by omega), List.getElem?_append_right (by omega), List.getElem?_append_right (by omega), h]

theorem HasLoadAt.congr {is js : List Instruction} (h : is.map Instruction.opcode = js.map Instruction.opcode)
    {offset : Nat} (hload : HasLoadAt is offset) : HasLoadAt js offset := by
  obtain ⟨k, i, hk, hop, rfl⟩ := hload
  have hjs : js[k]?.map Instruction.opcode = some .loadStaticAddress := by
    rw [← List.getElem?_map, ← h, List.getElem?_map, hk, Option.map_some, hop]
  obtain ⟨j, hj, hjop⟩ := Option.map_eq_some_iff.1 hjs
  exact ⟨k, j, hj, hjop, offsetAt_congr h k⟩

theorem HasLoadAt.readdress {is : List Instruction} {offset : Nat} (h : HasLoadAt is offset)
    (relocation : Nat × Word) : HasLoadAt (readdress is relocation) offset :=
  h.congr (map_opcode_readdress is relocation).symm

/-- The operand of a load is an address. -/
private theorem operand_of_load {i : Instruction} (hwf : i.WellFormed) (hop : i.opcode = .loadStaticAddress) :
    ∃ address, i.operand = .dataAddress address := by
  obtain ⟨opcode, operand⟩ := i
  subst hop
  cases operand with
  | dataAddress address => exact ⟨address, rfl⟩
  | none | localIndex | immediate | codeAddress => cases hwf

theorem WellFormedSequence.readdress {is : List Instruction} (h : WellFormedSequence is) {relocation : Nat × Word}
    (hload : HasLoadAt is relocation.1) : WellFormedSequence (readdress is relocation) := by
  intro j hj
  obtain ⟨n, hn⟩ := List.mem_iff_getElem?.1 hj
  rw [getElem?_readdress] at hn
  obtain ⟨i, hi, heq⟩ := Option.map_eq_some_iff.1 hn
  split at heq
  · rename_i ho
    subst heq
    -- the only instruction at the offset is the load
    obtain ⟨k, i', hk, hop, hk'⟩ := hload
    have hnlt := (List.getElem?_eq_some_iff.1 hi).1
    have hklt := (List.getElem?_eq_some_iff.1 hk).1
    have hnk : n = k := offsetAt_inj (Nat.le_of_lt hnlt) (Nat.le_of_lt hklt) (ho.trans hk')
    rw [hnk, hk] at hi
    cases hi
    simp [Instruction.WellFormed, Operand.kind, hop, Opcode.operandKind]
  · subst heq
    exact h i (List.mem_of_getElem? hi)

/-- Writing an address behind the opcode of a load replaces the operand of that load. -/
theorem encodeAll_readdress {is : List Instruction} (h : WellFormedSequence is) {relocation : Nat × Word}
    (hload : HasLoadAt is relocation.1) :
    encodeAll (readdress is relocation) = writeAddress (encodeAll is) relocation := by
  obtain ⟨offset, address⟩ := relocation
  obtain ⟨k, i, hk, hop, ho⟩ := hload
  dsimp only at ho
  obtain ⟨old, hold⟩ := operand_of_load (h i (List.mem_of_getElem? hk)) hop
  have hklt := (List.getElem?_eq_some_iff.1 hk).1
  have hnew : (readdress is (offset, address))[k]? = some ⟨.loadStaticAddress, .dataAddress address⟩ := by
    rw [getElem?_readdress, hk, Option.map_some, if_pos ho.symm, hop]
  -- the two sequences differ at position `k` only
  have hother : ∀ n, n ≠ k → (readdress is (offset, address))[n]? = is[n]? := by
    intro n hn
    rw [getElem?_readdress]
    cases hi : is[n]? with
    | none => rfl
    | some j =>
      have hnlt := (List.getElem?_eq_some_iff.1 hi).1
      have hne : offsetAt is n ≠ offset := fun heq => hn (offsetAt_inj (by omega) (by omega) (heq.trans ho))
      rw [Option.map_some, if_neg hne]
  have htake : (readdress is (offset, address)).take k = is.take k := by
    apply List.ext_getElem?
    intro n
    rw [List.getElem?_take, List.getElem?_take]
    split
    · exact hother n (by omega)
    · rfl
  have hdrop : (readdress is (offset, address)).drop (k + 1) = is.drop (k + 1) := by
    apply List.ext_getElem?
    intro n
    rw [List.getElem?_drop, List.getElem?_drop]
    exact hother _ (by omega)
  have hleft := encodeAll_split hnew
  rw [htake, hdrop] at hleft
  have hlen := length_flatMap_encode (h.take k)
  have hbytes : (Word.toBytes old).length = (Word.toBytes address).length := by simp
  have hwrite := overwrite_append ((is.take k).flatMap Instruction.encode ++ [i.opcode.byte])
    ((is.drop (k + 1)).flatMap Instruction.encode) hbytes
  rw [List.length_append, List.length_singleton, hlen] at hwrite
  rw [hleft, encodeAll_split hk, writeAddress]
  simp only [ho, offsetAt, Instruction.encode, hold, Operand.encode, hop, List.append_assoc,
    List.cons_append] at hwrite ⊢
  exact hwrite.symm

/-! ### All addresses -/

private theorem foldl_readdress {is : List Instruction} (h : WellFormedSequence is) {relocations : List (Nat × Word)}
    (hloads : ∀ relocation ∈ relocations, HasLoadAt is relocation.1) :
    WellFormedSequence (relocations.foldl readdress is) ∧
      encodeAll (relocations.foldl readdress is) = relocations.foldl writeAddress (encodeAll is) := by
  induction relocations generalizing is with
  | nil => exact ⟨h, rfl⟩
  | cons relocation relocations ih =>
    have hfirst := hloads relocation (by simp)
    rw [List.foldl_cons, List.foldl_cons, ← encodeAll_readdress h hfirst]
    exact ih (h.readdress hfirst) fun r hr => (hloads r (by simp [hr])).readdress relocation

theorem Function.mem_relocations {f : Function} {addresses : List Word} {offset : Nat} {address : Word} :
    (offset, address) ∈ f.relocations addresses ↔
      ∃ (k : Nat) (block : Block), f.staticData[k]? = some block ∧ addresses[k]? = some address ∧
        ∃ o ∈ block.loadOffsets, offset = o.toNat := by
  unfold Function.relocations
  simp only [List.mem_flatMap, List.mem_map, Prod.mk.injEq, Prod.exists]
  constructor
  · rintro ⟨block, a, hmem, o, ho, rfl, rfl⟩
    obtain ⟨k, hk⟩ := List.mem_iff_getElem?.1 hmem
    rw [List.getElem?_zip_eq_some] at hk
    exact ⟨k, block, hk.1, hk.2, o, ho, rfl⟩
  · rintro ⟨k, block, hblock, haddress, o, ho, rfl⟩
    exact ⟨block, address, List.mem_of_getElem? (List.getElem?_zip_eq_some.2 ⟨hblock, haddress⟩), o, ho, rfl, rfl⟩

theorem Function.VerifiedBy.hasLoadAt {f : Function} {is : List Instruction} (h : f.VerifiedBy is)
    (addresses : List Word) : ∀ relocation ∈ f.relocations addresses, HasLoadAt is relocation.1 := by
  rintro ⟨offset, address⟩ hmem
  obtain ⟨k, block, hblock, -, o, ho, rfl⟩ := Function.mem_relocations.1 hmem
  exact h.loads block (List.mem_of_getElem? hblock) o ho

/-- Relocating an accepted function goes through. -/
theorem Function.relocate_of_verifiedBy {f : Function} {is : List Instruction} (h : f.VerifiedBy is)
    (hpatched : f.patched = false) {addresses : List Word} (hcount : addresses.length = f.staticData.length) :
    f.relocate addresses = .ok (f.withAddresses addresses) := by
  have hdangling : f.danglingLoad? = none := by
    unfold Function.danglingLoad?
    rw [List.find?_eq_none]
    intro site hsite
    obtain ⟨block, hblock, o, ho, heq⟩ := Function.mem_loadSites.1 hsite
    obtain ⟨k, i, hk, hop, hoffset⟩ := h.loads block (List.mem_of_getElem? hblock) o ho
    have hend := offsetAt_add_length_le hk (Nat.lt_succ_self k)
    have hle := offsetAt_le is k.succ
    rw [Instruction.length, hop] at hend
    rw [decide_eq_true_eq, h.size_code, heq, hoffset]
    omega
  unfold Function.relocate
  rw [if_neg (by simp [hpatched]), if_neg (by simp [hcount]), hdangling]
  rfl

/-- A relocated function is acceptable by the sequence with the replaced operands. -/
theorem Function.VerifiedBy.withAddresses {f : Function} {is : List Instruction} (h : f.VerifiedBy is)
    (addresses : List Word) :
    (f.withAddresses addresses).VerifiedBy ((f.relocations addresses).foldl readdress is) := by
  obtain ⟨hwf, hcode⟩ := foldl_readdress h.wellFormed (h.hasLoadAt addresses)
  have hops := map_opcode_foldl_readdress (f.relocations addresses) is
  -- an operand that is no data address has not been replaced
  have hkept : ∀ i ∈ (f.relocations addresses).foldl readdress is,
      (∀ address, i.operand ≠ .dataAddress address) → i ∈ is := by
    intro i hi hne
    obtain ⟨k, hk⟩ := List.mem_iff_getElem?.1 hi
    rw [getElem?_foldl_readdress] at hk
    obtain ⟨j, hj, heq⟩ := Option.map_eq_some_iff.1 hk
    split at heq
    · exact absurd rfl (heq ▸ hne _)
    · exact heq ▸ List.mem_of_getElem? hj
  refine ⟨hwf, ?_, h.frame, ?_, ?_, ?_⟩
  · rw [hcode, ← h.code_eq]
    rfl
  · intro i hi target htarget
    obtain ⟨j, hj, heq⟩ := h.branches i (hkept i hi (by simp [htarget])) target htarget
    exact ⟨j, by rw [length_congr hops]; exact hj, by rw [offsetAt_foldl_readdress]; exact heq⟩
  · intro i hi index hindex
    exact h.locals i (hkept i hi (by simp [hindex])) index hindex
  · intro block hblock offset hoffset
    exact HasLoadAt.congr hops.symm (h.loads block hblock offset hoffset)

theorem Function.VerifiedBy.size_withAddresses {f : Function} {is : List Instruction} (h : f.VerifiedBy is)
    (addresses : List Word) : (f.withAddresses addresses).code.size = f.code.size := by
  rw [(h.withAddresses addresses).size_code, h.size_code]
  exact codeLength_congr (map_opcode_foldl_readdress _ _)

end StackMachine
