import StackMachine.Code.Listing
import StackMachine.Size

/-!
# Code as a sequence of instructions

Code is looked at through the instructions it consists of.  `encodeAll is` is the code of a sequence `is` of
instructions, and `offsetAt is k` is the offset of its `k`-th instruction, the sum of the lengths before it.

* (decoding) At the offset of an instruction of a well-formed sequence that instruction is read, and the sweep over
  the whole code gives the sequence back with its offsets: `decodeAt_encodeAll` and `decode_encodeAll`.
* (reading) Over any code the sweep finds a well-formed sequence, of which the code up to some offset is the code, and at
  that offset the code ends or no instruction can be read: `readsFrom_sweep`.
* (uniqueness) Whenever the sweep over a code meets no failure, the code is the code of a well-formed sequence, and
  the sweep has found that sequence: `exists_sequence_of_decode`.
* (order) The offsets of a sequence increase by at least the length of each instruction: `offsetAt_add_length_le`.
-/

namespace StackMachine

/-- The code of a sequence of instructions. -/
def encodeAll (is : List Instruction) : Bytes :=
  (is.flatMap Instruction.encode).toArray

/-- The sum of the lengths that the opcodes of a sequence announce. -/
def codeLength (is : List Instruction) : Nat :=
  Size.total (is.map Instruction.length)

/-- The offset of the `k`-th instruction of a sequence, which is the end of the code behind the last one. -/
def offsetAt (is : List Instruction) (k : Nat) : Nat :=
  codeLength (is.take k)

/-- The instructions of a sequence with their offsets, the first one at `start`. -/
def withOffsets (start : Nat) : List Instruction → List (Nat × Instruction)
  | [] => []
  | i :: is => (start, i) :: withOffsets (start + i.length) is

/-- Every operand is of the kind that its opcode asks for. -/
def WellFormedSequence (is : List Instruction) : Prop :=
  ∀ i ∈ is, i.WellFormed

/-! ### Offsets -/

@[simp] theorem codeLength_nil : codeLength [] = 0 := rfl

@[simp] theorem codeLength_cons (i : Instruction) (is : List Instruction) :
    codeLength (i :: is) = i.length + codeLength is := by
  simp [codeLength]

@[simp] theorem codeLength_append (is js : List Instruction) :
    codeLength (is ++ js) = codeLength is + codeLength js := by
  simp [codeLength]

@[simp] theorem offsetAt_zero (is : List Instruction) : offsetAt is 0 = 0 := by
  simp [offsetAt]

@[simp] theorem offsetAt_cons_succ (i : Instruction) (is : List Instruction) (k : Nat) :
    offsetAt (i :: is) (k + 1) = i.length + offsetAt is k := by
  simp [offsetAt]

theorem offsetAt_of_length_le {is : List Instruction} {k : Nat} (h : is.length ≤ k) :
    offsetAt is k = codeLength is := by
  rw [offsetAt, List.take_of_length_le h]

/-- The next instruction starts where an instruction ends. -/
theorem offsetAt_succ {is : List Instruction} {k : Nat} {i : Instruction} (h : is[k]? = some i) :
    offsetAt is (k + 1) = offsetAt is k + i.length := by
  rw [offsetAt, List.take_add_one, h, codeLength_append]
  simp [offsetAt]

theorem offsetAt_mono {is : List Instruction} {k j : Nat} (h : k ≤ j) : offsetAt is k ≤ offsetAt is j := by
  obtain ⟨n, rfl⟩ := Nat.exists_eq_add_of_le h
  rw [offsetAt, offsetAt, List.take_add, codeLength_append]
  omega

theorem offsetAt_le (is : List Instruction) (k : Nat) : offsetAt is k ≤ codeLength is := by
  have hsplit := congrArg codeLength (List.take_append_drop k is)
  rw [codeLength_append] at hsplit
  unfold offsetAt
  omega

/-- An instruction ends at or before the start of every later one. -/
theorem offsetAt_add_length_le {is : List Instruction} {k j : Nat} {i : Instruction} (h : is[k]? = some i)
    (hkj : k < j) : offsetAt is k + i.length ≤ offsetAt is j := by
  rw [← offsetAt_succ h]
  exact offsetAt_mono hkj

theorem offsetAt_lt_codeLength {is : List Instruction} {k : Nat} (h : k < is.length) :
    offsetAt is k < codeLength is := by
  have hk := List.getElem?_eq_getElem h
  have hend := offsetAt_succ hk
  have hpos := is[k].length_pos
  have hle := offsetAt_le is (k + 1)
  omega

/-- Different instructions have different offsets. -/
theorem offsetAt_inj {is : List Instruction} {k j : Nat} (hk : k ≤ is.length) (hj : j ≤ is.length)
    (h : offsetAt is k = offsetAt is j) : k = j := by
  -- of two positions the earlier one holds an instruction, and that has a positive length
  have key : ∀ {a b : Nat}, b ≤ is.length → a < b → offsetAt is a < offsetAt is b := by
    intro a b hb hab
    have ha := List.getElem?_eq_getElem (l := is) (i := a) (by omega)
    have hend := offsetAt_add_length_le ha hab
    have hpos := is[a].length_pos
    omega
  rcases Nat.lt_trichotomy k j with hlt | heq | hlt
  · have := key hj hlt
    omega
  · exact heq
  · have := key hk hlt
    omega

theorem getElem?_withOffsets (start : Nat) (is : List Instruction) (k : Nat) :
    (withOffsets start is)[k]? = is[k]?.map fun i => (start + offsetAt is k, i) := by
  induction is generalizing start k with
  | nil => simp [withOffsets]
  | cons i is ih =>
    cases k with
    | zero => simp [withOffsets]
    | succ k =>
      rw [withOffsets, List.getElem?_cons_succ, ih, List.getElem?_cons_succ, offsetAt_cons_succ, Nat.add_assoc]

theorem mem_withOffsets {start offset : Nat} {is : List Instruction} {i : Instruction} :
    (offset, i) ∈ withOffsets start is ↔ ∃ k, is[k]? = some i ∧ offset = start + offsetAt is k := by
  rw [List.mem_iff_getElem?]
  constructor
  · rintro ⟨k, hk⟩
    rw [getElem?_withOffsets, Option.map_eq_some_iff] at hk
    obtain ⟨j, hj, heq⟩ := hk
    cases heq
    exact ⟨k, hj, rfl⟩
  · rintro ⟨k, hk, rfl⟩
    exact ⟨k, by rw [getElem?_withOffsets, hk]; rfl⟩

theorem mem_map_fst_withOffsets {offset : Nat} {is : List Instruction} :
    offset ∈ (withOffsets 0 is).map Prod.fst ↔ ∃ k, k < is.length ∧ offset = offsetAt is k := by
  constructor
  · intro h
    obtain ⟨⟨o, i⟩, hmem, rfl⟩ := List.mem_map.1 h
    obtain ⟨k, hk, ho⟩ := mem_withOffsets.1 hmem
    exact ⟨k, (List.getElem?_eq_some_iff.1 hk).1, by simpa using ho⟩
  · rintro ⟨k, hk, rfl⟩
    have hi := List.getElem?_eq_getElem hk
    exact List.mem_map.2 ⟨(offsetAt is k, is[k]), mem_withOffsets.2 ⟨k, hi, by simp⟩, rfl⟩

/-! ### Reading what was encoded -/

private theorem drop_append_length (before stretch after : List UInt8) :
    (before ++ stretch ++ after).drop before.length = stretch ++ after := by
  rw [List.append_assoc, List.drop_left]

private theorem readWord?_append (before after : List UInt8) (word : Word) :
    Bytes.readWord? (before ++ Word.toBytes word ++ after).toArray before.length = some word := by
  have hlen := Word.length_toBytes word
  have hfit : before.length + wordSize ≤ (before ++ Word.toBytes word ++ after).toArray.size := by
    simp only [List.size_toArray, List.length_append]
    omega
  have hslice : Bytes.slice (before ++ Word.toBytes word ++ after).toArray before.length wordSize =
      Word.toBytes word := by
    rw [Bytes.slice_eq_take_drop, List.toList_toArray, drop_append_length, ← hlen, List.take_left]
  exact Bytes.readWord?_eq_some_iff.2 ⟨hfit, hslice⟩

private theorem read?_append (before after : List UInt8) (operand : Operand) :
    Operand.read? operand.kind (before ++ operand.encode ++ after).toArray before.length = some operand := by
  cases operand with
  | none => rfl
  | localIndex index => simp [Operand.kind, Operand.read?, Operand.encode]
  | immediate word | codeAddress word | dataAddress word =>
    simp only [Operand.kind, Operand.read?, Operand.encode, readWord?_append, Option.map_some]

/-- An instruction is read where its encoding stands, whatever stands before and behind it. -/
theorem decodeAt_append (before after : List UInt8) {i : Instruction} (h : i.WellFormed) :
    Instruction.decodeAt (before ++ i.encode ++ after).toArray before.length = .ok i := by
  have hbyte : (before ++ i.encode ++ after).toArray[before.length]? = some i.opcode.byte := by
    simp [Instruction.encode]
  have hoperand : Operand.read? i.opcode.operandKind (before ++ i.encode ++ after).toArray (before.length + 1) =
      some i.operand := by
    have hread := read?_append (before ++ [i.opcode.byte]) after i.operand
    rw [h] at hread
    simpa [Instruction.encode] using hread
  unfold Instruction.decodeAt
  rw [hbyte]
  dsimp only
  rw [Opcode.ofByte?_byte]
  dsimp only
  rw [hoperand]

theorem length_flatMap_encode {is : List Instruction} (h : WellFormedSequence is) :
    (is.flatMap Instruction.encode).length = codeLength is := by
  induction is with
  | nil => rfl
  | cons i is ih =>
    rw [List.flatMap_cons, List.length_append, codeLength_cons, Instruction.length_encode (h i (by simp)),
      ih fun j hj => h j (by simp [hj])]

theorem size_encodeAll {is : List Instruction} (h : WellFormedSequence is) :
    (encodeAll is).size = codeLength is := by
  rw [encodeAll, List.size_toArray, length_flatMap_encode h]

theorem WellFormedSequence.take {is : List Instruction} (h : WellFormedSequence is) (k : Nat) :
    WellFormedSequence (is.take k) :=
  fun i hi => h i (List.mem_of_mem_take hi)

/-- The code around the `k`-th instruction. -/
theorem encodeAll_split {is : List Instruction} {k : Nat} {i : Instruction} (h : is[k]? = some i) :
    encodeAll is = ((is.take k).flatMap Instruction.encode ++ i.encode ++
      (is.drop (k + 1)).flatMap Instruction.encode).toArray := by
  obtain ⟨hk, rfl⟩ := List.getElem?_eq_some_iff.1 h
  have hsplit := congrArg (List.flatMap Instruction.encode) (List.take_append_drop k is)
  rw [List.drop_eq_getElem_cons hk, List.flatMap_append, List.flatMap_cons] at hsplit
  rw [encodeAll, ← hsplit, List.append_assoc]

/-- At the offset of an instruction of a well-formed sequence that instruction is read. -/
theorem decodeAt_encodeAll {is : List Instruction} (h : WellFormedSequence is) {k : Nat} {i : Instruction}
    (hi : is[k]? = some i) : Instruction.decodeAt (encodeAll is) (offsetAt is k) = .ok i := by
  rw [encodeAll_split hi, offsetAt, ← length_flatMap_encode (h.take k)]
  exact decodeAt_append _ _ (h i (List.mem_of_getElem? hi))

/-- Behind the last instruction no instruction is read. -/
theorem decodeAt_encodeAll_end {is : List Instruction} (h : WellFormedSequence is) :
    Instruction.decodeAt (encodeAll is) (codeLength is) = .error (.truncatedInstruction (codeLength is)) := by
  have hbyte : (encodeAll is)[codeLength is]? = none := by
    exact Array.getElem?_eq_none_iff.2 (Nat.le_of_eq (size_encodeAll h))
  unfold Instruction.decodeAt
  rw [hbyte]

/-- The sweep from an instruction on finds the rest of the sequence. -/
private theorem sweep_encodeAll {is : List Instruction} (h : WellFormedSequence is) (k : Nat) (hk : k ≤ is.length) :
    Decoding.sweep (encodeAll is) (offsetAt is k) = ⟨withOffsets (offsetAt is k) (is.drop k), none⟩ := by
  -- the sweep moves towards the end of the sequence, so the induction is on the instructions left
  obtain ⟨n, hn⟩ : ∃ n, is.length - k = n := ⟨_, rfl⟩
  induction n generalizing k with
  | zero =>
    have hend : k = is.length := by omega
    subst hend
    rw [Decoding.sweep, if_neg]
    · simp [withOffsets]
    · rw [size_encodeAll h, offsetAt_of_length_le (Nat.le_refl _)]
      omega
  | succ n ih =>
    have hlt : k < is.length := by omega
    have hi := List.getElem?_eq_getElem hlt
    have hin := offsetAt_lt_codeLength hlt
    rw [Decoding.sweep, if_pos (by rw [size_encodeAll h]; exact hin), decodeAt_encodeAll h hi]
    dsimp only
    rw [← offsetAt_succ hi, ih (k + 1) (by omega) (by omega), List.drop_eq_getElem_cons hlt, withOffsets,
      offsetAt_succ hi]

/-- The sweep over the code of a well-formed sequence gives the sequence back with its offsets. -/
theorem decode_encodeAll {is : List Instruction} (h : WellFormedSequence is) :
    decode (encodeAll is) = ⟨withOffsets 0 is, none⟩ := by
  have hsweep := sweep_encodeAll h 0 (Nat.zero_le _)
  simpa [decode] using hsweep

theorem map_snd_withOffsets (start : Nat) (is : List Instruction) :
    (withOffsets start is).map Prod.snd = is := by
  induction is generalizing start with
  | nil => rfl
  | cons i is ih => rw [withOffsets, List.map_cons, ih]

/-- Well-formed sequences with the same code are equal. -/
theorem encodeAll_inj {is js : List Instruction} (his : WellFormedSequence is) (hjs : WellFormedSequence js)
    (h : encodeAll is = encodeAll js) : is = js := by
  have hsweep := congrArg decode h
  rw [decode_encodeAll his, decode_encodeAll hjs] at hsweep
  have hwith := congrArg (fun decoding => decoding.instructions.map Prod.snd) hsweep
  simpa only [map_snd_withOffsets] using hwith

/-! ### Encoding what was read -/

private theorem drop_eq_of_readWord? {code : Bytes} {index : Nat} {word : Word}
    (h : code.readWord? index = some word) :
    code.toList.drop index = Word.toBytes word ++ code.toList.drop (index + wordSize) := by
  obtain ⟨-, hslice⟩ := Bytes.readWord?_eq_some_iff.1 h
  rw [← hslice, Bytes.slice_eq_take_drop, ← List.drop_drop, List.take_append_drop]

private theorem drop_eq_of_read? {kind : OperandKind} {code : Bytes} {index : Nat} {operand : Operand}
    (h : Operand.read? kind code index = some operand) :
    code.toList.drop index = operand.encode ++ code.toList.drop (index + kind.size) := by
  cases kind with
  | none =>
    cases h
    rfl
  | localIndex =>
    obtain ⟨byte, hbyte, rfl⟩ := Option.map_eq_some_iff.1 h
    obtain ⟨hlt, rfl⟩ := Array.getElem?_eq_some_iff.1 hbyte
    rw [List.drop_eq_getElem_cons (by simpa using hlt)]
    rfl
  | immediate | codeAddress | dataAddress =>
    obtain ⟨word, hword, rfl⟩ := Option.map_eq_some_iff.1 h
    exact drop_eq_of_readWord? hword

/-- From the offset of an instruction that was read, the code goes on with its encoding. -/
theorem drop_eq_of_decodeAt {code : Bytes} {offset : Nat} {i : Instruction}
    (h : Instruction.decodeAt code offset = .ok i) :
    code.toList.drop offset = i.encode ++ code.toList.drop (offset + i.length) := by
  unfold Instruction.decodeAt at h
  split at h
  · cases h
  · rename_i byte hbyte
    split at h
    · cases h
    · rename_i opcode hopcode
      split at h
      · cases h
      · rename_i operand hread
        cases h
        obtain ⟨hlt, hget⟩ := Array.getElem?_eq_some_iff.1 hbyte
        have hrest := drop_eq_of_read? hread
        have hbyte' := Opcode.byte_of_ofByte? hopcode
        rw [List.drop_eq_getElem_cons (by simpa using hlt), hrest]
        simp only [Instruction.encode, Instruction.length, Opcode.encodedLength, hbyte', ← hget,
          Array.getElem_toList, Nat.add_assoc, List.cons_append]

theorem Instruction.end_le_of_decodeAt {code : Bytes} {offset : Nat} {i : Instruction}
    (h : Instruction.decodeAt code offset = .ok i) : offset + i.length ≤ code.size := by
  have hlt := Instruction.lt_size_of_decodeAt h
  have hlen := congrArg List.length (drop_eq_of_decodeAt h)
  rw [List.length_append, Instruction.length_encode (Instruction.wellFormed_of_decodeAt h), List.length_drop,
    Array.length_toList] at hlen
  omega

/-- From the offset on the code is a sequence of instructions up to its end, or up to where none can be read. -/
structure ReadsFrom (code : Bytes) (offset : Nat) (is : List Instruction) (failure : Option CodeError) : Prop where
  wellFormed : WellFormedSequence is
  drop_eq : code.toList.drop offset = is.flatMap Instruction.encode ++ code.toList.drop (offset + codeLength is)
  end_le : offset + codeLength is ≤ code.size
  complete : failure = none → offset + codeLength is = code.size
  failed : ∀ e, failure = some e → offset + codeLength is < code.size ∧
    Instruction.decodeAt code (offset + codeLength is) = .error e

theorem ReadsFrom.cons {code : Bytes} {offset : Nat} {i : Instruction} (hi : Instruction.decodeAt code offset = .ok i)
    {is : List Instruction} {failure : Option CodeError} (h : ReadsFrom code (offset + i.length) is failure) :
    ReadsFrom code offset (i :: is) failure := by
  obtain ⟨hwf, hdrop, hend, hcomplete, hfailed⟩ := h
  rw [Nat.add_assoc] at hdrop hend hcomplete
  simp only [Nat.add_assoc] at hfailed
  refine ⟨?_, ?_, hend, hcomplete, hfailed⟩
  · intro j hj
    rcases List.mem_cons.1 hj with rfl | hj
    · exact Instruction.wellFormed_of_decodeAt hi
    · exact hwf j hj
  · rw [drop_eq_of_decodeAt hi, hdrop, List.flatMap_cons, List.append_assoc, codeLength_cons]

/-- The sweep from an offset finds the instructions that stand there, and stops for the right cause. -/
theorem readsFrom_sweep {code : Bytes} {offset : Nat} (hle : offset ≤ code.size) :
    ∃ is, ReadsFrom code offset is (Decoding.sweep code offset).failure ∧
      (Decoding.sweep code offset).instructions = withOffsets offset is := by
  fun_induction Decoding.sweep code offset with
  | case1 offset hlt e hdecode =>
    refine ⟨[], ⟨by simp [WellFormedSequence], by simp, by simpa using hle, by simp, ?_⟩, rfl⟩
    intro e' he
    cases he
    exact ⟨by simpa using hlt, by simpa using hdecode⟩
  | case2 offset hlt i hdecode rest ih =>
    obtain ⟨is, hreads, hinstructions⟩ := ih (Instruction.end_le_of_decodeAt hdecode)
    exact ⟨i :: is, hreads.cons hdecode, by rw [withOffsets, ← hinstructions]⟩
  | case3 offset hlt =>
    have hend : offset = code.size := by omega
    exact ⟨[], ⟨by simp [WellFormedSequence], by simp, by simpa using hle, fun _ => by simpa using hend, by simp⟩, rfl⟩

/-- Code that the sweep reads to its end is the code of the well-formed sequence that the sweep finds. -/
theorem exists_sequence_of_decode {code : Bytes} (h : (decode code).failure = none) :
    ∃ is, WellFormedSequence is ∧ code = encodeAll is ∧ (decode code).instructions = withOffsets 0 is := by
  obtain ⟨is, hreads, hinstructions⟩ := readsFrom_sweep (Nat.zero_le code.size)
  have hend := hreads.complete h
  have hcode := hreads.drop_eq
  rw [List.drop_zero, hend, List.drop_of_length_le (by simp), List.append_nil] at hcode
  exact ⟨is, hreads.wellFormed, by rw [encodeAll, ← hcode, Array.toArray_toList], hinstructions⟩

end StackMachine
