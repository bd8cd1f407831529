import Mathlib.Data.List.Nodup
import StackMachine.Proofs.Assembly.Assembled
import StackMachine.Proofs.Assembly.Script

/-!
# Assembled code reads back as it was emitted

The code of an assembled function is read back as the instructions that the script has emitted, one for one and in order,
each at the sum of the lengths before it.  A branch leads to the first instruction emitted after the call that set its
label, which is the end of the code if there is none, and a static load has the number of its block (`readsAs_instruction`).

Offsets of different instructions differ.  So the loads of a block are recorded without repetition, and a load is
recorded by the block that it names and by no other: `nodup_loadOffsets` and `recordedOnce_of_load`.
-/

namespace StackMachine

open Builder (emitted defined SetsLabel)

/-- The sum of the lengths of emitted instructions. -/
def Emission.totalLength (emissions : List Emission) : Nat :=
  Size.total (emissions.map Emission.length)

/-- The operand with which an emitted instruction is read back. -/
def Emission.ReadsAs (name : String) (script : List Builder.Call) : Emission → Operand → Prop
  | .plain _, operand => operand = .none
  | .immediate value, operand => operand = .immediate value
  | .localAddress index, operand => operand = .localIndex index
  | .branch _ label, operand => ∃ target, operand = .codeAddress target ∧
      (∃ before, SetsLabel name script label before) ∧
      ∀ before, SetsLabel name script label before → target.toInt = totalLength (emitted before)
  | .staticAddress block, operand => ∃ number, operand = .dataAddress number ∧ number.toInt = block.index.toNat

/-- The instruction loads the address of the block with the given number. -/
def Emission.loads (number : Nat) : Emission → Bool
  | .staticAddress block => block.index.toNat == number
  | _ => false

/-- How a function reads back that was assembled from what a script has made. -/
structure Builder.ReadsBack (name : String) (script : List Call) (f : Function) : Prop where
  decoded : (decode f.code).failure = none
  count : (decode f.code).instructions.length = (emitted script).length
  size_code : f.code.size = Emission.totalLength (emitted script)
  instruction : ∀ (k : Nat) (emission : Emission), (emitted script)[k]? = some emission →
    ∃ operand, emission.ReadsAs name script operand ∧
      (decode f.code).instructions[k]? =
        some (Emission.totalLength ((emitted script).take k), ⟨emission.opcode, operand⟩)
  blocks : f.staticData.map (fun block => (block.data, block.identifier)) =
    (defined script).map fun block => (block.data, block.identifier)
  /-- A block records the loads that were emitted against it, in the order of emission. -/
  loads : ∀ (number : Nat) (block : Block), f.staticData[number]? = some block →
    block.loadOffsets.map UInt64.toNat =
      ((emitted script).zipIdx.filter fun entry => entry.1.loads number).map fun entry =>
        Emission.totalLength ((emitted script).take entry.2)
  /-- Every load is recorded by one block only, and once. -/
  once : ∀ (offset : Nat) (i : Instruction), (offset, i) ∈ (decode f.code).instructions →
    i.opcode = .loadStaticAddress →
    ∃ (number : Nat) (block : Block), f.staticData[number]? = some block ∧
      (block.loadOffsets.map UInt64.toNat).count offset = 1 ∧
      ∀ (other : Nat) (block' : Block), other ≠ number → f.staticData[other]? = some block' →
        offset ∉ block'.loadOffsets.map UInt64.toNat

/-! ### Instructions -/

private theorem toInt_toInt32 {n : UInt32} (h : n.toNat ≤ maxWord) : n.toInt32.toInt = n.toNat := by
  unfold maxWord at h
  rw [← Int32.toInt_toBitVec, UInt32.toBitVec_toInt32]
  apply BitVec.toInt_eq_toNat_of_lt
  rw [UInt32.toNat_toBitVec]
  omega

theorem Builder.offsetOf_after (name : String) (script : List Call) (k : Nat) :
    (after name script).offsetOf k = Emission.totalLength ((emitted script).take k) := by
  rw [Builder.offsetOf, emissions_after, Emission.totalLength]

/-- The offset of the position of a label is the length of what was emitted before the label was set. -/
theorem Builder.SetsLabel.offsetOf_eq {name : String} {script : List Call} {label : Label} {before : List Call}
    (h : SetsLabel name script label before) :
    (after name script).offsetOf (emitted before).length = Emission.totalLength (emitted before) := by
  obtain ⟨⟨rest, rfl⟩, -⟩ := h
  rw [Builder.offsetOf_after, emitted_append, List.take_left]

/-- Assembling gives every instruction the operand with which it reads back. -/
theorem Builder.Assembles.readsAs_instruction {name : String} {script : List Builder.Call} {f : Function}
    (h : (Builder.after name script).Assembles f) (hblocks : (defined script).length ≤ maxWord) {k : Nat}
    {emission : Emission} (hk : (Builder.after name script).emissions[k]? = some emission) :
    emission.ReadsAs name script
      ((Builder.after name script).instruction (Builder.after name script).offsetOf emission).operand := by
  cases emission with
  | plain | immediate | localAddress => rfl
  | branch conditional label =>
    obtain ⟨position, hposition⟩ := h.labels k conditional label hk
    obtain ⟨before, hsets, -⟩ := Builder.labels_after.1 hposition
    refine ⟨_, rfl, ⟨before, hsets⟩, fun before' hsets' => ?_⟩
    -- whichever call has set the label, it has set it to this position
    have hposition' := Builder.labels_after.2 ⟨before', hsets', rfl⟩
    have hoffset : (Builder.after name script).labelOffset (Builder.after name script).offsetOf label =
        Emission.totalLength (emitted before') := by
      rw [Builder.labelOffset, hposition']
      exact hsets'.offsetOf_eq
    have hle : Emission.totalLength (emitted before') ≤ maxWord := by
      rw [← hsets'.offsetOf_eq]
      exact Nat.le_trans (Builder.offsetOf_le _ _) h.codeLength_le
    rw [hoffset]
    exact toInt_ofNat_of_le hle
  | staticAddress block =>
    refine ⟨_, rfl, toInt_toInt32 ?_⟩
    have hlt := h.blocks k block hk
    rw [← Array.length_toList, Builder.blocks_after] at hlt
    omega

/-! ### Recorded loads -/

private theorem filterMap_if {α β : Type} (p : α → Bool) (g : α → β) (l : List α) :
    (l.filterMap fun a => if p a then some (g a) else none) = (l.filter p).map g := by
  induction l with
  | nil => rfl
  | cons a l ih => cases h : p a <;> simp [h, ih]

/-- The loads of a block are the offsets of the instructions that load it. -/
theorem Builder.Assembles.loadOffsets_eq {builder : Builder} {f : Function} (h : builder.Assembles f)
    (number : Nat) :
    (builder.loadOffsets builder.offsetOf number).map UInt64.toNat =
      (builder.emissions.toList.zipIdx.filter fun entry => entry.1.loads number).map fun entry =>
        builder.offsetOf entry.2 := by
  have hexact := Builder.toNat_ofNat_offsetOf h.codeLength_le
  rw [← filterMap_if, Builder.loadOffsets, List.map_filterMap]
  congr 1
  funext ⟨emission, k⟩
  cases emission with
  | staticAddress block =>
    by_cases hnumber : block.index.toNat = number
    · simp [Emission.loads, hnumber, hexact]
    · simp [Emission.loads, hnumber]
  | plain | immediate | localAddress | branch => rfl

theorem Builder.Assembles.nodup_loadOffsets {builder : Builder} {f : Function} (h : builder.Assembles f)
    (number : Nat) : ((builder.loadOffsets builder.offsetOf number).map UInt64.toNat).Nodup := by
  rw [h.loadOffsets_eq]
  have hpositions : ∀ entry ∈ builder.emissions.toList.zipIdx.filter (fun entry => entry.1.loads number),
      builder.emissions.toList[entry.2]? = some entry.1 := by
    intro entry hentry
    exact List.mem_zipIdx_iff_getElem?.1 (List.mem_of_mem_filter hentry)
  -- entries with the same offset have the same position, hence are the same
  apply List.Nodup.map_on
  · rintro ⟨a, j⟩ ha ⟨b, k⟩ hb heq
    have hj := hpositions _ ha
    have hk := hpositions _ hb
    have hjlt := (List.getElem?_eq_some_iff.1 hj).1
    have hklt := (List.getElem?_eq_some_iff.1 hk).1
    rw [Array.length_toList] at hjlt hklt
    have hjk := Builder.offsetOf_inj hjlt hklt heq
    dsimp only at hj hk hjk
    subst hjk
    rw [hj] at hk
    cases hk
    rfl
  · apply List.Nodup.filter
    have hrange : (builder.emissions.toList.zipIdx.map Prod.snd).Nodup := by
      rw [List.zipIdx_map_snd]
      exact List.nodup_range'
    exact List.Nodup.of_map _ hrange

/-- A load is recorded once by the block that it names, and by no other. -/
theorem Builder.Assembles.recordedOnce_of_load {builder : Builder} {f : Function} (h : builder.Assembles f) {k : Nat}
    {handle : BlockHandle} (hk : builder.emissions[k]? = some (.staticAddress handle)) :
    ∃ (number : Nat) (block : Block), f.staticData[number]? = some block ∧
      (block.loadOffsets.map UInt64.toNat).count (builder.offsetOf k) = 1 ∧
      ∀ (other : Nat) (block' : Block), other ≠ number → f.staticData[other]? = some block' →
        builder.offsetOf k ∉ block'.loadOffsets.map UInt64.toNat := by
  have hrecorded : ∀ {number : Nat}, builder.offsetOf k ∈ (builder.loadOffsets builder.offsetOf number).map UInt64.toNat ↔
      handle.index.toNat = number := by
    intro number
    rw [h.loadOffsets_eq, List.mem_map]
    constructor
    · rintro ⟨⟨emission, j⟩, hentry, hoffset⟩
      obtain ⟨hmem, hloads⟩ := List.mem_filter.1 hentry
      have hj := List.mem_zipIdx_iff_getElem?.1 hmem
      rw [Array.getElem?_toList] at hj
      have hjk := Builder.offsetOf_inj (Array.getElem?_eq_some_iff.1 hj).1 (Array.getElem?_eq_some_iff.1 hk).1 hoffset
      dsimp only at hj hjk
      subst hjk
      rw [hk] at hj
      cases hj
      simpa [Emission.loads] using hloads
    · intro hnumber
      refine ⟨(.staticAddress handle, k), List.mem_filter.2 ⟨?_, ?_⟩, rfl⟩
      · rw [List.mem_zipIdx_iff_getElem?, Array.getElem?_toList]
        exact hk
      · simpa [Emission.loads] using hnumber
  have hlt := h.blocks k handle hk
  have hblock := builder.getElem?_staticData handle.index.toNat
  rw [← h.staticData_eq, Array.getElem?_eq_getElem hlt, Option.map_some] at hblock
  refine ⟨handle.index.toNat, _, hblock, ?_, ?_⟩
  · exact List.count_eq_one_of_mem (h.nodup_loadOffsets _) (hrecorded.2 rfl)
  · intro other block' hother hblock' hmem
    rw [h.staticData_eq, builder.getElem?_staticData] at hblock'
    obtain ⟨data, -, rfl⟩ := Option.map_eq_some_iff.1 hblock'
    exact hother (hrecorded.1 hmem).symm

/-! ### The whole function -/

/-- An assembled function reads back as the script has emitted and defined it. -/
theorem Builder.readsBack_of_assemble {name : String} {script : List Call} {f : Function}
    (hassemble : (after name script).assemble = .ok f) (hblocks : (defined script).length ≤ maxWord) :
    ReadsBack name script f := by
  have h := Builder.assembles_of_assemble hassemble
  have hdecode : decode f.code = ⟨withOffsets 0 (after name script).instructions, none⟩ := by
    rw [h.verified.code_eq, decode_encodeAll h.verified.wellFormed]
  have hread : ∀ k, (decode f.code).instructions[k]? = (emitted script)[k]?.map fun emission =>
      (Emission.totalLength ((emitted script).take k),
        (after name script).instruction (after name script).offsetOf emission) := by
    intro k
    rw [hdecode, getElem?_withOffsets, Builder.offsetAt_instructions, Builder.offsetOf_after,
      Builder.getElem?_instructions, ← Array.getElem?_toList, emissions_after, Option.map_map, Nat.zero_add]
    rfl
  constructor
  case decoded => rw [hdecode]
  case count =>
    have hlength : ∀ n, (decode f.code).instructions.length ≤ n ↔ (emitted script).length ≤ n := by
      intro n
      rw [← List.getElem?_eq_none_iff, ← List.getElem?_eq_none_iff, hread, Option.map_eq_none_iff]
    have hle := hlength (emitted script).length
    have hge := hlength (decode f.code).instructions.length
    omega
  case size_code =>
    rw [h.verified.size_code, Builder.codeLength_instructions, Builder.codeLength, emissions_after,
      Emission.totalLength]
  case instruction =>
    intro k emission hk
    have hemission : (after name script).emissions[k]? = some emission := by
      rw [← Array.getElem?_toList, emissions_after, hk]
    refine ⟨_, h.readsAs_instruction hblocks hemission, ?_⟩
    rw [hread, hk]
    rfl
  case blocks =>
    apply List.ext_getElem?
    intro number
    rw [List.getElem?_map, List.getElem?_map, h.staticData_eq, Builder.getElem?_staticData, ← Array.getElem?_toList,
      blocks_after, Option.map_map]
    rfl
  case loads =>
    intro number block hblock
    rw [h.staticData_eq, Builder.getElem?_staticData] at hblock
    obtain ⟨data, -, rfl⟩ := Option.map_eq_some_iff.1 hblock
    have hoffsets := h.loadOffsets_eq number
    rw [emissions_after] at hoffsets
    simpa only [Builder.offsetOf_after] using hoffsets
  case once =>
    intro offset i hmem hop
    obtain ⟨k, hk⟩ := List.mem_iff_getElem?.1 hmem
    rw [hread] at hk
    obtain ⟨emission, hemission, heq⟩ := Option.map_eq_some_iff.1 hk
    cases heq
    rw [← Builder.offsetOf_after name]
    rw [← emissions_after name, Array.getElem?_toList] at hemission
    -- only a static load has that opcode
    cases emission with
    | staticAddress handle => exact h.recordedOnce_of_load hemission
    | plain opcode => exact absurd opcode.2 (by rw [show (opcode : Opcode) = .loadStaticAddress from hop]; decide)
    | immediate | localAddress => cases hop
    | branch conditional label => cases conditional <;> cases hop

/-- Loads two blocks in turns until the popped word is zero.  One label is set before everything and one behind
everything, and setting the latter once more is refused. -/
def pollingScript : List Builder.Call :=
  [.createLabel, .createLabel, .setLabel ⟨0⟩, .defineBlock { data := #[1, 2] }, .emit (.staticAddress ⟨1⟩),
    .defineBlock { data := #[3] }, .emit (.branch true ⟨1⟩), .emit (.staticAddress ⟨0⟩), .emit (.staticAddress ⟨1⟩),
    .emit (.branch false ⟨0⟩), .setLabel ⟨1⟩, .setLabel ⟨1⟩]

theorem Builder.readsBack_of_assemble_polling :
    (defined pollingScript).length ≤ maxWord ∧ ∃ f, (after "polling" pollingScript).assemble = .ok f ∧
      ReadsBack "polling" pollingScript f := by
  have hblocks : (defined pollingScript).length ≤ maxWord := by decide
  have hsome : (after "polling" pollingScript).assemble.toOption.isSome = true := by decide +kernel
  cases hassemble : (after "polling" pollingScript).assemble with
  | error e =>
    rw [hassemble] at hsome
    cases hsome
  | ok f => exact ⟨hblocks, f, rfl, Builder.readsBack_of_assemble hassemble hblocks⟩

end StackMachine
