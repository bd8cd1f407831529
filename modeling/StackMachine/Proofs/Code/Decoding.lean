import StackMachine.Proofs.Code.Sequence

/-!
# Decoding loses nothing and invents nothing

* (encoding, then decoding) The code of a well-formed sequence is read back as that sequence, and different sequences have
  different code: `encodeAll_reads_back`.
* (decoding any bytes) Every buffer starts with the code of the instructions that are found in it.  At the end of that code
  the buffer ends, or the one error that is given out says why no instruction can be read there: `decode_describes`.

Reading one instruction at a time is stated apart from the sweep: a `Cursor` gives out an item and moves on, and
`Cursor.Yields` says which items come out before it ends.  That it ends at all is `yields_sweep`.
-/

namespace StackMachine

/-- What comes out of a code one after the other. -/
abbrev Decoding.Item := Except CodeError (Nat × Instruction)

/-- The instructions, and last why the sweep stopped early. -/
def Decoding.items (decoding : Decoding) : List Decoding.Item :=
  decoding.instructions.map .ok ++ decoding.failure.toList.map .error

/-- The instructions without their offsets. -/
def Decoding.sequence (decoding : Decoding) : List Instruction :=
  decoding.instructions.map Prod.snd

/-- The offset behind the last instruction. -/
def Decoding.reach (decoding : Decoding) : Nat :=
  codeLength decoding.sequence

/-! ### Reading one instruction at a time -/

/-- Where reading stands, and whether an error has come out. -/
structure Cursor where
  offset : Nat := 0
  failed : Bool := false
deriving DecidableEq, Repr

/-- The next item and where reading stands behind it, unless the code or an error ends it. -/
def Cursor.next? (code : Bytes) (cursor : Cursor) : Option (Decoding.Item × Cursor) :=
  if cursor.failed ∨ code.size ≤ cursor.offset then none
  else
    match Instruction.decodeAt code cursor.offset with
    | .ok i => some (.ok (cursor.offset, i), { cursor with offset := cursor.offset + i.length })
    | .error e => some (.error e, { cursor with failed := true })

/-- From the cursor on these items come out, and then no more. -/
inductive Cursor.Yields (code : Bytes) : Cursor → List Decoding.Item → Prop where
  | done {cursor : Cursor} : cursor.next? code = none → Yields code cursor []
  | item {cursor after : Cursor} {item : Decoding.Item} {items : List Decoding.Item} :
    cursor.next? code = some (item, after) → Yields code after items → Yields code cursor (item :: items)

theorem Cursor.Yields.unique {code : Bytes} {cursor : Cursor} {items others : List Decoding.Item}
    (h : Yields code cursor items) (hothers : Yields code cursor others) : items = others := by
  induction h generalizing others with
  | done hnone =>
    cases hothers with
    | done => rfl
    | item hsome => rw [hnone] at hsome; cases hsome
  | item hsome _ ih =>
    cases hothers with
    | done hnone => rw [hnone] at hsome; cases hsome
    | item hsome' hrest =>
      rw [hsome] at hsome'
      cases hsome'
      rw [ih hrest]

theorem Cursor.next?_of_ok {code : Bytes} {offset : Nat} {i : Instruction}
    (h : Instruction.decodeAt code offset = .ok i) :
    Cursor.next? code ⟨offset, false⟩ = some (.ok (offset, i), ⟨offset + i.length, false⟩) := by
  have hlt := Instruction.lt_size_of_decodeAt h
  unfold Cursor.next?
  rw [if_neg (by simpa using hlt), h]

theorem Cursor.next?_of_error {code : Bytes} {offset : Nat} (hlt : offset < code.size) {e : CodeError}
    (h : Instruction.decodeAt code offset = .error e) :
    Cursor.next? code ⟨offset, false⟩ = some (.error e, ⟨offset, true⟩) := by
  unfold Cursor.next?
  rw [if_neg (by simpa using hlt), h]

/-- Reading from an offset ends, and what comes out is what the sweep finds. -/
theorem yields_sweep (code : Bytes) (offset : Nat) :
    Cursor.Yields code ⟨offset, false⟩ (Decoding.sweep code offset).items := by
  fun_induction Decoding.sweep code offset with
  | case1 offset hlt e hdecode =>
    exact .item (Cursor.next?_of_error hlt hdecode) (.done (by simp [Cursor.next?]))
  | case2 offset hlt i hdecode rest ih => exact .item (Cursor.next?_of_ok hdecode) ih
  | case3 offset hlt =>
    refine .done ?_
    unfold Cursor.next?
    exact if_pos (.inr (Nat.le_of_not_lt hlt))

/-! ### Why no instruction can be read -/

/-- No instruction starts at the offset, although the code does not end there. -/
inductive StopsAt (code : Bytes) (offset : Nat) : CodeError → Prop where
  | invalid {byte : UInt8} : code[offset]? = some byte → Opcode.ofByte? byte = none →
    StopsAt code offset (.invalidOpcode offset byte)
  | truncated {byte : UInt8} {opcode : Opcode} : code[offset]? = some byte → Opcode.ofByte? byte = some opcode →
    code.size < offset + opcode.encodedLength → StopsAt code offset (.truncatedInstruction offset)

theorem size_lt_of_read?_eq_none {kind : OperandKind} {code : Bytes} {index : Nat}
    (h : Operand.read? kind code index = none) : code.size < index + kind.size := by
  cases kind with
  | none => cases h
  | localIndex =>
    have hnone := Array.getElem?_eq_none_iff.1 (Option.map_eq_none_iff.1 h)
    simp only [OperandKind.size]
    omega
  | immediate | codeAddress | dataAddress =>
    have hnone := Option.map_eq_none_iff.1 h
    unfold Bytes.readWord? at hnone
    split at hnone
    · cases hnone
    · rename_i hshort
      exact Nat.lt_of_not_le hshort

theorem stopsAt_of_decodeAt {code : Bytes} {offset : Nat} (hlt : offset < code.size) {e : CodeError}
    (h : Instruction.decodeAt code offset = .error e) : StopsAt code offset e := by
  unfold Instruction.decodeAt at h
  split at h
  · rename_i hnone
    have hle := Array.getElem?_eq_none_iff.1 hnone
    omega
  · rename_i byte hbyte
    split at h
    · rename_i hopcode
      cases h
      exact .invalid hbyte hopcode
    · rename_i opcode hopcode
      split at h
      · rename_i hread
        cases h
        have hshort := size_lt_of_read?_eq_none hread
        exact .truncated hbyte hopcode (by unfold Opcode.encodedLength; omega)
      · cases h

/-! ### Encoding, then decoding -/

theorem items_of_withOffsets (is : List Instruction) :
    (Decoding.mk (withOffsets 0 is) none).items = is.mapIdx fun k i => .ok (codeLength (is.take k), i) := by
  apply List.ext_getElem?
  intro k
  simp only [Decoding.items, Option.toList_none, List.map_nil, List.append_nil, List.getElem?_map,
    getElem?_withOffsets, List.getElem?_mapIdx, Option.map_map, Nat.zero_add]
  rfl

/-- The code of a well-formed sequence gives the sequence back, instruction by instruction and as a whole. -/
theorem encodeAll_reads_back {is : List Instruction} (h : WellFormedSequence is) :
    (∀ i ∈ is, i.encode.length = i.length ∧
      ∀ before after : List UInt8,
        Instruction.decodeAt (before ++ i.encode ++ after).toArray before.length = .ok i) ∧
    (decode (encodeAll is)).items = is.mapIdx (fun k i => .ok (codeLength (is.take k), i)) ∧
    ∀ js, WellFormedSequence js → encodeAll js = encodeAll is → js = is := by
  refine ⟨?_, ?_, ?_⟩
  · intro i hi
    exact ⟨Instruction.length_encode (h i hi), fun before after => decodeAt_append before after (h i hi)⟩
  · rw [decode_encodeAll h, items_of_withOffsets]
  · intro js hjs hcode
    exact encodeAll_inj hjs h hcode

/-- One instruction for each kind of operand, with the least and the greatest operands. -/
def operandKinds : List Instruction :=
  [⟨.loadImmediate, .immediate (-2147483648)⟩, ⟨.loadLocalAddress, .localIndex 255⟩, .plain .dup,
   ⟨.loadStaticAddress, .dataAddress 2147483647⟩, ⟨.branchIfFalse, .codeAddress (-1)⟩]

theorem encodeAll_reads_back_operandKinds :
    WellFormedSequence operandKinds ∧
      (decode (encodeAll operandKinds)).items =
        [.ok (0, ⟨.loadImmediate, .immediate (-2147483648)⟩), .ok (5, ⟨.loadLocalAddress, .localIndex 255⟩),
         .ok (7, .plain .dup), .ok (8, ⟨.loadStaticAddress, .dataAddress 2147483647⟩),
         .ok (13, ⟨.branchIfFalse, .codeAddress (-1)⟩)] := by
  have h : WellFormedSequence operandKinds := by
    unfold WellFormedSequence
    decide
  exact ⟨h, (encodeAll_reads_back h).2.1⟩

/-! ### Decoding any bytes -/

/-- What was read from a code, in full. -/
structure Decoding.Describes (code : Bytes) (decoding : Decoding) : Prop where
  /-- Reading one instruction at a time ends, with these items. -/
  yields : ∀ items, Cursor.Yields code {} items ↔ items = decoding.items
  wellFormed : WellFormedSequence decoding.sequence
  /-- Each instruction stands at the sum of the lengths before it. -/
  offsets : decoding.instructions.map Prod.fst =
    decoding.sequence.mapIdx fun k _ => codeLength (decoding.sequence.take k)
  reach_le : decoding.reach ≤ code.size
  /-- The instructions are the bytes up to the reach. -/
  bytes : decoding.sequence.flatMap Instruction.encode = code.toList.take decoding.reach
  complete : decoding.failure = none ↔ decoding.reach = code.size
  /-- The error is the one that reading at the reach gives. -/
  stops : ∀ e, decoding.failure = some e →
    Instruction.decodeAt code decoding.reach = .error e ∧ StopsAt code decoding.reach e
  listed : (∃ text, listing code = .ok text) ↔ decoding.failure = none
  unlisted : ∀ e, listing code = .error e ↔ decoding.failure = some e

theorem listing_eq_error_iff {code : Bytes} {e : CodeError} :
    listing code = .error e ↔ (decode code).failure = some e := by
  unfold listing Decoding.toExcept
  cases (decode code).failure with
  | none =>
    constructor
    · intro h
      cases h
    · intro h
      cases h
  | some found =>
    constructor
    · intro h
      cases h
      rfl
    · intro h
      cases h
      rfl

theorem exists_listing_iff {code : Bytes} : (∃ text, listing code = .ok text) ↔ (decode code).failure = none := by
  constructor
  · rintro ⟨text, htext⟩
    cases hfailure : (decode code).failure with
    | none => rfl
    | some e =>
      rw [listing_eq_error_iff.2 hfailure] at htext
      cases htext
  · intro hfailure
    unfold listing Decoding.toExcept
    rw [hfailure]
    exact ⟨_, rfl⟩

theorem sequence_of_withOffsets {start : Nat} {is : List Instruction} {decoding : Decoding}
    (h : decoding.instructions = withOffsets start is) : decoding.sequence = is := by
  rw [Decoding.sequence, h, map_snd_withOffsets]

/-- Every buffer is described by what is read from it. -/
theorem decode_describes (code : Bytes) : (decode code).Describes code := by
  obtain ⟨is, hreads, hinstructions⟩ := readsFrom_sweep (Nat.zero_le code.size)
  have hsequence : (decode code).sequence = is := sequence_of_withOffsets hinstructions
  have hreach : (decode code).reach = codeLength is := by rw [Decoding.reach, hsequence]
  have hyields := yields_sweep code 0
  obtain ⟨hwf, hdrop, hend, hcomplete, hfailed⟩ := hreads
  rw [Nat.zero_add] at hdrop hend hcomplete
  simp only [Nat.zero_add] at hfailed
  constructor
  case yields =>
    intro items
    constructor
    · intro h
      exact h.unique hyields
    · rintro rfl
      exact hyields
  case wellFormed => rwa [hsequence]
  case offsets =>
    rw [hsequence]
    apply List.ext_getElem?
    intro k
    change ((Decoding.sweep code 0).instructions.map Prod.fst)[k]? = _
    simp only [hinstructions, List.getElem?_map, getElem?_withOffsets, List.getElem?_mapIdx, Option.map_map,
      Nat.zero_add]
    rfl
  case reach_le => rwa [hreach]
  case bytes =>
    have hlength := length_flatMap_encode hwf
    rw [hsequence, hreach, ← List.drop_zero (l := code.toList), hdrop, ← hlength, List.take_left]
  case complete =>
    rw [hreach]
    constructor
    · exact hcomplete
    · intro hsize
      cases hfailure : (decode code).failure with
      | none => rfl
      | some e =>
        have hlt := (hfailed e hfailure).1
        omega
  case stops =>
    intro e he
    obtain ⟨hlt, herror⟩ := hfailed e he
    rw [hreach]
    exact ⟨herror, stopsAt_of_decodeAt hlt herror⟩
  case listed => exact exists_listing_iff
  case unlisted => exact fun e => listing_eq_error_iff

end StackMachine
