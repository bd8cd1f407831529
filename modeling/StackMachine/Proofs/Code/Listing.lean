import StackMachine.Proofs.Code.Decoding

/-!
# Listings lose nothing

Every part of a line ends where a character stands that the part cannot hold: the offset and the digits of an operand at
the first character that is no digit, the mnemonic at the first that is no letter.  So a line can be told from whatever
follows it (`lineBody_append_inj`), and the instructions of a listing from those of any other; with their encodings
the code comes back.  `listedAs_of_listing` says this together with the shape of a listing, one line for each
instruction, which starts with the instruction's offset.
-/

namespace StackMachine

/-- The number that a line starts with. -/
def leadingNumber? (line : List Char) : Option Nat :=
  match line.takeWhile Char.isDigit with
  | [] => none
  | digits => some (Nat.ofDigitChars 10 digits 0)

/-- What a listing says about a code. -/
structure ListedAs (code : Bytes) (text : String) : Prop where
  complete : (decode code).failure = none
  /-- There is a line for each instruction, in order, and nothing behind the last newline. -/
  lines : ∃ lines, text.toList.splitOn '\n' = lines ++ [[]] ∧
    lines.map leadingNumber? = (decode code).instructions.map fun entry => some entry.1
  /-- No other code has this listing. -/
  unique : ∀ other, listing other = .ok text → other = code

/-! ### Characters that can be told from what follows them -/

/-- What follows does not start with a character of the class. -/
def Stops (p : Char → Bool) (rest : List Char) : Prop :=
  ∀ c ∈ rest.head?, p c = false

theorem stops_cons {p : Char → Bool} {c : Char} (h : p c = false) (rest : List Char) : Stops p (c :: rest) := by
  intro d hd
  cases hd
  exact h

private theorem takeWhile_of_stops {p : Char → Bool} {part rest : List Char} (hpart : ∀ c ∈ part, p c = true)
    (hrest : Stops p rest) : (part ++ rest).takeWhile p = part := by
  rw [List.takeWhile_append_of_pos hpart]
  cases rest with
  | nil => simp
  | cons c rest => simp [hrest c rfl]

/-- Characters of a class can be told from what does not go on with the class. -/
theorem append_inj_of_stops {p : Char → Bool} {a b rest rest' : List Char} (ha : ∀ c ∈ a, p c = true)
    (hb : ∀ c ∈ b, p c = true) (hrest : Stops p rest) (hrest' : Stops p rest') (h : a ++ rest = b ++ rest') :
    a = b ∧ rest = rest' := by
  have hpart : a = b := by
    rw [← takeWhile_of_stops ha hrest, h, takeWhile_of_stops hb hrest']
  subst hpart
  exact ⟨rfl, List.append_cancel_left h⟩

/-! ### Numbers -/

theorem toList_zeroPadded (width n : Nat) :
    (zeroPadded width n).toList = List.replicate (width - (Nat.toDigits 10 n).length) '0' ++ Nat.toDigits 10 n := by
  simp [zeroPadded, List.leftpad]

theorem isDigit_of_mem_zeroPadded {width n : Nat} {c : Char} (h : c ∈ (zeroPadded width n).toList) :
    c.isDigit = true := by
  rw [toList_zeroPadded, List.mem_append] at h
  rcases h with h | h
  · rw [List.eq_of_mem_replicate h]
    decide
  · exact Nat.isDigit_of_mem_toDigits (by decide) (by decide) h

private theorem ofDigitChars_replicate_zero (count : Nat) : Nat.ofDigitChars 10 (List.replicate count '0') 0 = 0 := by
  induction count with
  | zero => rfl
  | succ count ih => rw [List.replicate_succ, Nat.ofDigitChars_cons]; exact ih

/-- The zeros in front do not change a number. -/
theorem ofDigitChars_zeroPadded (width n : Nat) : Nat.ofDigitChars 10 (zeroPadded width n).toList 0 = n := by
  rw [toList_zeroPadded, Nat.ofDigitChars_append, ofDigitChars_replicate_zero,
    Nat.ofDigitChars_toDigits (by decide) (by decide)]

theorem zeroPadded_ne_nil (width n : Nat) : (zeroPadded width n).toList ≠ [] := by
  rw [toList_zeroPadded]
  intro h
  exact Nat.toDigits_ne_nil (List.append_eq_nil_iff.1 h).2

theorem zeroPadded_append_inj {width m n : Nat} {rest rest' : List Char} (hrest : Stops Char.isDigit rest)
    (hrest' : Stops Char.isDigit rest')
    (h : (zeroPadded width m).toList ++ rest = (zeroPadded width n).toList ++ rest') : m = n ∧ rest = rest' := by
  obtain ⟨hdigits, hrests⟩ := append_inj_of_stops (fun _ => isDigit_of_mem_zeroPadded)
    (fun _ => isDigit_of_mem_zeroPadded) hrest hrest' h
  have hnumber := congrArg (Nat.ofDigitChars 10 · 0) hdigits
  simp only [ofDigitChars_zeroPadded] at hnumber
  exact ⟨hnumber, hrests⟩

theorem zeroPadded_append_ne_minus (width n : Nat) (rest others : List Char) :
    (zeroPadded width n).toList ++ rest ≠ '-' :: others := by
  intro h
  cases hdigits : (zeroPadded width n).toList with
  | nil => exact zeroPadded_ne_nil width n hdigits
  | cons c digits =>
    have hc : c.isDigit = true := isDigit_of_mem_zeroPadded (by rw [hdigits]; simp)
    rw [hdigits, List.cons_append] at h
    rw [(List.cons.inj h).1] at hc
    cases hc

theorem toList_zeroPaddedInt (width : Nat) (z : Int) :
    (zeroPaddedInt width z).toList =
      if z < 0 then '-' :: (zeroPadded (width - 1) z.natAbs).toList else (zeroPadded width z.natAbs).toList := by
  unfold zeroPaddedInt
  split <;> simp

/-- A number with its sign can be told from what does not go on with digits. -/
theorem zeroPaddedInt_append_inj {width : Nat} {x y : Int} {rest rest' : List Char} (hrest : Stops Char.isDigit rest)
    (hrest' : Stops Char.isDigit rest')
    (h : (zeroPaddedInt width x).toList ++ rest = (zeroPaddedInt width y).toList ++ rest') :
    x = y ∧ rest = rest' := by
  rw [toList_zeroPaddedInt, toList_zeroPaddedInt] at h
  -- of two signs that differ one text starts with a minus and the other with a digit
  by_cases hx : x < 0 <;> by_cases hy : y < 0
  · simp only [hx, hy, if_true, List.cons_append, List.cons.injEq, true_and] at h
    obtain ⟨habs, hrests⟩ := zeroPadded_append_inj hrest hrest' h
    exact ⟨by omega, hrests⟩
  · simp only [hx, hy, if_true, if_false, List.cons_append] at h
    exact absurd h.symm (zeroPadded_append_ne_minus _ _ _ _)
  · simp only [hx, hy, if_true, if_false, List.cons_append] at h
    exact absurd h (zeroPadded_append_ne_minus _ _ _ _)
  · simp only [hx, hy, if_false] at h
    obtain ⟨habs, hrests⟩ := zeroPadded_append_inj hrest hrest' h
    exact ⟨by omega, hrests⟩

/-! ### Instructions -/

theorem Opcode.mnemonic_injective {a b : Opcode} (h : a.mnemonic = b.mnemonic) : a = b := by
  have hread : ∀ opcode ∈ Opcode.all, Opcode.ofMnemonic? opcode.mnemonic = some opcode := by decide +kernel
  have ha := hread a a.mem_all
  rw [h, hread b b.mem_all] at ha
  exact (Option.some.inj ha).symm

theorem Opcode.isAlpha_of_mem_mnemonic (opcode : Opcode) : ∀ c ∈ opcode.mnemonic.toList, c.isAlpha = true := by
  have hall : (Opcode.all.all fun opcode => opcode.mnemonic.toList.all Char.isAlpha) = true := by decide +kernel
  simp only [List.all_eq_true] at hall
  exact hall opcode opcode.mem_all

/-- An operand as it stands behind its mnemonic. -/
def Operand.written : Operand → String
  | .none => ""
  | .localIndex index => " local[" ++ zeroPadded 0 index.toNat ++ "]"
  | .immediate value => " " ++ zeroPaddedInt 1 value.toInt
  | .codeAddress target => " @" ++ zeroPaddedInt 4 target.toInt
  | .dataAddress address => " &" ++ zeroPaddedInt 1 address.toInt

theorem Instruction.text_eq (i : Instruction) : i.text = i.opcode.mnemonic ++ i.operand.written := by
  obtain ⟨opcode, operand⟩ := i
  cases operand with
  | localIndex index =>
    have hdigits : zeroPadded 0 index.toNat = toString index.toNat := by
      rw [zeroPadded, List.leftpad, Nat.zero_sub]
      rfl
    rw [Operand.written, hdigits]
    rfl
  | none | immediate | codeAddress | dataAddress => rfl

theorem Operand.stops_written (operand : Operand) (rest : List Char) :
    Stops Char.isAlpha (operand.written.toList ++ '\n' :: rest) := by
  have hblank : ∀ rest, Stops Char.isAlpha (' ' :: rest) := stops_cons (by decide)
  cases operand with
  | none => exact stops_cons (by decide) rest
  | localIndex | immediate | codeAddress | dataAddress => simp [Operand.written, hblank]

/-- Of operands of one kind, each can be told from the lines that follow it. -/
theorem Operand.written_append_inj {a b : Operand} (hkind : a.kind = b.kind) {rest rest' : List Char}
    (h : a.written.toList ++ '\n' :: rest = b.written.toList ++ '\n' :: rest') : a = b ∧ rest = rest' := by
  have hnewline : ∀ rest, Stops Char.isDigit ('\n' :: rest) := stops_cons (by decide)
  have hbracket : ∀ rest, Stops Char.isDigit (']' :: rest) := stops_cons (by decide)
  -- a word with its sign ends the line, in each of the three kinds that hold one
  have hword : ∀ {width : Nat} {x y : Word},
      (zeroPaddedInt width x.toInt).toList ++ '\n' :: rest = (zeroPaddedInt width y.toInt).toList ++ '\n' :: rest' →
      x = y ∧ rest = rest' := by
    intro width x y heq
    obtain ⟨hvalue, hrests⟩ := zeroPaddedInt_append_inj (hnewline rest) (hnewline rest') heq
    exact ⟨Int32.toInt_inj.1 hvalue, (List.cons.inj hrests).2⟩
  cases a <;> cases b <;> cases hkind <;>
    simp only [Operand.written, String.toList_append, List.append_assoc, List.append_cancel_left_eq] at h
  case none => exact ⟨rfl, (List.cons.inj h).2⟩
  case localIndex =>
    obtain ⟨hindex, hrests⟩ := zeroPadded_append_inj (hbracket _) (hbracket _) h
    rw [UInt8.toNat_inj.1 hindex]
    exact ⟨rfl, (List.cons.inj (List.cons.inj hrests).2).2⟩
  case immediate | codeAddress | dataAddress =>
    obtain ⟨rfl, hrests⟩ := hword h
    exact ⟨rfl, hrests⟩

/-- A well-formed instruction can be told from the lines that follow it. -/
theorem Instruction.text_append_inj {i j : Instruction} (hi : i.WellFormed) (hj : j.WellFormed)
    {rest rest' : List Char} (h : i.text.toList ++ '\n' :: rest = j.text.toList ++ '\n' :: rest') :
    i = j ∧ rest = rest' := by
  simp only [Instruction.text_eq, String.toList_append, List.append_assoc] at h
  obtain ⟨hmnemonic, hoperands⟩ := append_inj_of_stops i.opcode.isAlpha_of_mem_mnemonic
    j.opcode.isAlpha_of_mem_mnemonic (i.operand.stops_written rest) (j.operand.stops_written rest') h
  have hopcode : i.opcode = j.opcode := Opcode.mnemonic_injective (String.toList_inj.1 hmnemonic)
  have hkind : i.operand.kind = j.operand.kind := by rw [hi, hj, hopcode]
  obtain ⟨hoperand, hrests⟩ := Operand.written_append_inj hkind hoperands
  cases i
  cases j
  cases hopcode
  cases hoperand
  exact ⟨rfl, hrests⟩

/-! ### Lines -/

/-- A line without its newline. -/
def lineBody (entry : Nat × Instruction) : List Char :=
  (zeroPadded 4 entry.1).toList ++ ':' :: ' ' :: entry.2.text.toList

theorem toList_listingLine (offset : Nat) (i : Instruction) :
    (listingLine offset i).toList = lineBody (offset, i) ++ ['\n'] := by
  simp [listingLine, lineBody]

theorem lineBody_append_inj {entry other : Nat × Instruction} (hentry : entry.2.WellFormed)
    (hother : other.2.WellFormed) {rest rest' : List Char}
    (h : lineBody entry ++ '\n' :: rest = lineBody other ++ '\n' :: rest') : entry = other ∧ rest = rest' := by
  have hcolon : ∀ rest, Stops Char.isDigit (':' :: rest) := stops_cons (by decide)
  unfold lineBody at h
  rw [List.append_assoc, List.append_assoc] at h
  obtain ⟨hoffset, htexts⟩ := zeroPadded_append_inj (hcolon _) (hcolon _) h
  obtain ⟨hinstruction, hrests⟩ := Instruction.text_append_inj hentry hother
    (List.cons.inj (List.cons.inj htexts).2).2
  exact ⟨Prod.ext hoffset hinstruction, hrests⟩

theorem leadingNumber?_lineBody (entry : Nat × Instruction) : leadingNumber? (lineBody entry) = some entry.1 := by
  have htake : (lineBody entry).takeWhile Char.isDigit = (zeroPadded 4 entry.1).toList :=
    takeWhile_of_stops (fun _ => isDigit_of_mem_zeroPadded) (stops_cons (by decide) _)
  unfold leadingNumber?
  rw [htake]
  split
  · rename_i hnil
    exact absurd hnil (zeroPadded_ne_nil 4 entry.1)
  · rw [ofDigitChars_zeroPadded]

theorem newline_notMem_zeroPadded (width n : Nat) : '\n' ∉ (zeroPadded width n).toList := by
  intro h
  exact absurd (isDigit_of_mem_zeroPadded h) (by decide)

theorem newline_notMem_zeroPaddedInt (width : Nat) (z : Int) : '\n' ∉ (zeroPaddedInt width z).toList := by
  rw [toList_zeroPaddedInt]
  split
  · rw [List.mem_cons, not_or]
    exact ⟨by decide, newline_notMem_zeroPadded _ _⟩
  · exact newline_notMem_zeroPadded _ _

theorem Operand.newline_notMem_written (operand : Operand) : '\n' ∉ operand.written.toList := by
  cases operand <;>
    simp [Operand.written, newline_notMem_zeroPadded, newline_notMem_zeroPaddedInt]

theorem newline_notMem_lineBody (entry : Nat × Instruction) : '\n' ∉ lineBody entry := by
  have hmnemonic : '\n' ∉ entry.2.opcode.mnemonic.toList := by
    intro h
    exact absurd (entry.2.opcode.isAlpha_of_mem_mnemonic _ h) (by decide)
  simp [lineBody, Instruction.text_eq, newline_notMem_zeroPadded, hmnemonic, Operand.newline_notMem_written]

/-! ### Whole listings -/

/-- The characters of the lines for some instructions. -/
def linesOf (entries : List (Nat × Instruction)) : List Char :=
  entries.flatMap fun entry => lineBody entry ++ ['\n']

theorem linesOf_cons (entry : Nat × Instruction) (entries : List (Nat × Instruction)) :
    linesOf (entry :: entries) = lineBody entry ++ '\n' :: linesOf entries := by
  simp [linesOf]

@[simp] theorem linesOf_eq_nil_iff {entries : List (Nat × Instruction)} : linesOf entries = [] ↔ entries = [] := by
  cases entries <;> simp [linesOf]

/-- A text is the listing of a code exactly if it is made of the lines for all of the code. -/
theorem listing_eq_ok_iff {code : Bytes} {text : String} :
    listing code = .ok text ↔ (decode code).failure = none ∧ text.toList = linesOf (decode code).instructions := by
  have hchars : (String.join ((decode code).instructions.map fun entry => listingLine entry.1 entry.2)).toList =
      linesOf (decode code).instructions := by
    simp only [String.toList_join, List.flatMap_map, toList_listingLine, linesOf]
  unfold listing Decoding.toExcept
  cases (decode code).failure with
  | some e =>
    constructor
    · intro h
      cases h
    · intro h
      cases h.1
  | none =>
    constructor
    · intro h
      cases h
      exact ⟨rfl, hchars⟩
    · intro h
      rw [← hchars, String.toList_inj] at h
      rw [h.2]
      rfl

theorem splitOn_linesOf (entries : List (Nat × Instruction)) :
    (linesOf entries).splitOn '\n' = entries.map lineBody ++ [[]] := by
  induction entries with
  | nil => simp [linesOf]
  | cons entry entries ih =>
    have hbody : ∀ c ∈ lineBody entry, (c == '\n') = false := by
      intro c hc
      rw [beq_eq_false_iff_ne]
      rintro rfl
      exact newline_notMem_lineBody entry hc
    rw [linesOf_cons, List.map_cons, List.cons_append, ← ih]
    exact List.splitOnP_append_cons_of_forall_mem hbody '\n' (by decide) _

theorem linesOf_inj {entries others : List (Nat × Instruction)} (hentries : ∀ entry ∈ entries, entry.2.WellFormed)
    (hothers : ∀ entry ∈ others, entry.2.WellFormed) (h : linesOf entries = linesOf others) : entries = others := by
  induction entries generalizing others with
  | nil => exact (linesOf_eq_nil_iff.1 h.symm).symm
  | cons entry entries ih =>
    cases others with
    | nil => exact linesOf_eq_nil_iff.1 h
    | cons other others =>
      rw [linesOf_cons, linesOf_cons] at h
      obtain ⟨rfl, hrest⟩ := lineBody_append_inj (hentries entry (by simp)) (hothers other (by simp)) h
      rw [ih (fun e he => hentries e (by simp [he])) (fun e he => hothers e (by simp [he])) hrest]

/-- Code that is read to its end is determined by the instructions that are read. -/
theorem eq_of_instructions_eq {code other : Bytes} (hcode : (decode code).failure = none)
    (hother : (decode other).failure = none) (h : (decode code).instructions = (decode other).instructions) :
    code = other := by
  obtain ⟨is, -, rfl, his⟩ := exists_sequence_of_decode hcode
  obtain ⟨js, -, rfl, hjs⟩ := exists_sequence_of_decode hother
  rw [his, hjs] at h
  rw [← map_snd_withOffsets 0 is, h, map_snd_withOffsets]

theorem wellFormed_of_mem_instructions {code : Bytes} :
    ∀ entry ∈ (decode code).instructions, entry.2.WellFormed := by
  intro entry hentry
  exact (decode_describes code).wellFormed entry.2 (List.mem_map_of_mem hentry)

/-- A listing has one line for each instruction, which starts with its offset, and no other code has the same listing. -/
theorem listedAs_of_listing {code : Bytes} {text : String} (h : listing code = .ok text) : ListedAs code text := by
  obtain ⟨hcomplete, hlines⟩ := listing_eq_ok_iff.1 h
  refine ⟨hcomplete, ⟨(decode code).instructions.map lineBody, ?_, ?_⟩, fun other hother => ?_⟩
  · rw [hlines, splitOn_linesOf]
  · rw [List.map_map]
    refine List.map_congr_left fun entry _ => ?_
    rw [Function.comp_apply, leadingNumber?_lineBody]
  · obtain ⟨hcompleteOther, hlinesOther⟩ := listing_eq_ok_iff.1 hother
    rw [hlines] at hlinesOther
    exact (eq_of_instructions_eq hcomplete hcompleteOther
      (linesOf_inj wellFormed_of_mem_instructions wellFormed_of_mem_instructions hlinesOther)).symm

theorem listedAs_of_listing_operandKinds :
    let text := "0000: LoadIntegerImmediate -2147483648\n0005: LoadLocalAddress local[255]\n0007: Dup\n" ++
      "0008: LoadStaticAddress &2147483647\n0013: BranchIfFalse @-001\n"
    listing (encodeAll operandKinds) = .ok text ∧ ListedAs (encodeAll operandKinds) text := by
  intro text
  have hlisting : listing (encodeAll operandKinds) = .ok text := by
    have hwf : WellFormedSequence operandKinds := by
      unfold WellFormedSequence
      decide
    rw [listing_eq_ok_iff, decode_encodeAll hwf]
    decide +kernel
  exact ⟨hlisting, listedAs_of_listing hlisting⟩

end StackMachine
