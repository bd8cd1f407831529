import StackMachine.Bytes.Word
import StackMachine.Size

/-!
# Words in a buffer

A word is read and written where four bytes remain.  Which word is read is told by these four bytes alone: the lowest stands
first, and the number that they make is taken modulo `2 ^ 32`, so that half of all words are negative (`Bytes.HasWordAt`).
A write puts there the four bytes that are read as the word, and keeps all others (`Bytes.holdsWords`).

Indices are registers.  The end of a word may lie behind the last register, and a sum that wraps around would then point to
the start of the buffer.  A checked sum refuses such an index, and since no buffer is that long it refuses no other one:
reading in registers (`Bytes.readWordAt?`) and writing in place (`writeWordAt`) agree with reading and writing at natural
numbers (`readWordAt?_eq`, `writeWordAt_apply`).
-/

namespace StackMachine

/-! ### Registers -/

/-- The sum of two registers, unless it wraps around. -/
def Register.add? (a b : UInt64) : Option UInt64 :=
  if a + b < a then none else some (a + b)

theorem Register.map_add? (a b : UInt64) : (Register.add? a b).map UInt64.toNat = Size.add? a.toNat b.toNat := by
  have ha := a.toNat_lt
  have hb := b.toNat_lt
  have hbound : Size.bound = 18446744073709551616 := rfl
  unfold Register.add? Size.add?
  by_cases hfits : a.toNat + b.toNat < Size.bound
  · have hsum : (a + b).toNat = a.toNat + b.toNat := by
      rw [UInt64.toNat_add]
      omega
    rw [if_pos hfits, if_neg (by rw [UInt64.lt_iff_toNat_lt]; omega), Option.map_some, hsum]
  · have hsum : (a + b).toNat = a.toNat + b.toNat - Size.bound := by
      rw [UInt64.toNat_add]
      omega
    rw [if_neg hfits, if_pos (by rw [UInt64.lt_iff_toNat_lt]; omega), Option.map_none]

/-- The bytes from one register up to another, if these stand in order and inside the buffer. -/
def Bytes.between? (bytes : Bytes) (start stop : UInt64) : Option (List UInt8) :=
  if start ≤ stop ∧ stop.toNat ≤ bytes.size then some (bytes.slice start.toNat (stop.toNat - start.toNat)) else none

/-- The four bytes at an index, if they have an end and lie inside the buffer. -/
def Bytes.fourAt? (bytes : Bytes) (index : UInt64) : Option (List UInt8) := do
  let stop ← Register.add? index 4
  bytes.between? index stop

/-- Reads the word at an index, in registers. -/
def Bytes.readWordAt? (bytes : Bytes) (index : UInt64) : Option Word := do
  let four ← bytes.fourAt? index
  if four.length = wordSize then some (Word.ofBytes four) else none

/-- Writes a word at an index, in place, and tells whether it was written. -/
def writeWordAt (index : UInt64) (word : Word) : StateM Bytes Bool := do
  let bytes ← get
  match bytes.fourAt? index with
  | some _ =>
    set (bytes.overwrite index.toNat (Word.toBytes word))
    return true
  | none => return false

section

variable {bytes : Bytes}

/-- An index whose word has no end among the registers has none inside the buffer. -/
theorem Bytes.fourAt?_eq (h : bytes.size < Size.bound) (index : UInt64) :
    bytes.fourAt? index =
      if index.toNat + wordSize ≤ bytes.size then some (bytes.slice index.toNat wordSize) else none := by
  have hsum := Register.map_add? index 4
  rw [show (4 : UInt64).toNat = wordSize from rfl] at hsum
  unfold Bytes.fourAt?
  cases hstop : Register.add? index 4 with
  | none =>
    have hwraps : ¬ index.toNat + wordSize < Size.bound := by
      intro hlt
      rw [hstop, Size.add?_eq_some_iff.2 ⟨rfl, hlt⟩] at hsum
      cases hsum
    rw [if_neg (by omega)]
    rfl
  | some stop =>
    rw [hstop] at hsum
    obtain ⟨hend, -⟩ := Size.add?_eq_some_iff.1 hsum.symm
    have hle : index ≤ stop := by
      rw [UInt64.le_iff_toNat_le]
      omega
    show bytes.between? index stop = _
    rw [Bytes.between?, hend, Nat.add_sub_cancel_left]
    simp only [hle, true_and]

theorem Bytes.readWordAt?_eq (h : bytes.size < Size.bound) (index : UInt64) :
    bytes.readWordAt? index = bytes.readWord? index.toNat := by
  unfold Bytes.readWordAt? Bytes.readWord?
  rw [Bytes.fourAt?_eq h]
  split
  · rename_i hfits
    exact if_pos (Bytes.length_slice_of_le hfits)
  · rfl

theorem writeWordAt_apply (h : bytes.size < Size.bound) (index : UInt64) (word : Word) :
    writeWordAt index word bytes =
      match bytes.writeWord? index.toNat word with
      | some written => (true, written)
      | none => (false, bytes) := by
  have happly : writeWordAt index word bytes =
      match bytes.fourAt? index with
      | some _ => (true, bytes.overwrite index.toNat (Word.toBytes word))
      | none => (false, bytes) := by
    unfold writeWordAt
    show (match bytes.fourAt? index with | some _ => _ | none => _ : StateM Bytes Bool) bytes = _
    cases bytes.fourAt? index <;> rfl
  rw [happly, Bytes.fourAt?_eq h, Bytes.writeWord?]
  by_cases hfits : index.toNat + wordSize ≤ bytes.size
  · rw [if_pos hfits, if_pos hfits]
  · rw [if_neg hfits, if_neg hfits]

/-! ### Reading -/

/-- The four bytes at an index, the lowest first, make up the word modulo `2 ^ 32`. -/
def Bytes.HasWordAt (bytes : Bytes) (index : Nat) (word : Word) : Prop :=
  ∃ b₀ b₁ b₂ b₃ : UInt8,
    bytes[index]? = some b₀ ∧ bytes[index + 1]? = some b₁ ∧ bytes[index + 2]? = some b₂ ∧ bytes[index + 3]? = some b₃ ∧
    word.toInt = Int.bmod (b₀.toNat + 256 * b₁.toNat + 65536 * b₂.toNat + 16777216 * b₃.toNat) 4294967296

theorem Word.toInt_ofBytes (values : List UInt8) :
    (Word.ofBytes values).toInt = Int.bmod (ofLittleEndian values) 4294967296 := by
  rw [Word.ofBytes, UInt32.toInt32_ofNat']
  exact Int32.toInt_ofNat'

theorem Word.toInt_ofBytes_four (b₀ b₁ b₂ b₃ : UInt8) :
    (Word.ofBytes [b₀, b₁, b₂, b₃]).toInt =
      Int.bmod (b₀.toNat + 256 * b₁.toNat + 65536 * b₂.toNat + 16777216 * b₃.toNat) 4294967296 := by
  rw [Word.toInt_ofBytes]
  congr 1
  simp only [ofLittleEndian]
  omega

theorem Word.exists_toBytes_eq (word : Word) : ∃ b₀ b₁ b₂ b₃, Word.toBytes word = [b₀, b₁, b₂, b₃] :=
  ⟨_, _, _, _, rfl⟩

theorem Bytes.slice_eq_four_iff {index : Nat} {b₀ b₁ b₂ b₃ : UInt8} :
    bytes.slice index wordSize = [b₀, b₁, b₂, b₃] ↔
      bytes[index]? = some b₀ ∧ bytes[index + 1]? = some b₁ ∧ bytes[index + 2]? = some b₂ ∧
        bytes[index + 3]? = some b₃ := by
  have hslice := bytes.getElem?_slice index wordSize
  constructor
  · intro h
    rw [h] at hslice
    exact ⟨(hslice 0).symm, (hslice 1).symm, (hslice 2).symm, (hslice 3).symm⟩
  · rintro ⟨h₀, h₁, h₂, h₃⟩
    apply List.ext_getElem?
    intro k
    rw [hslice]
    match k with
    | 0 => exact h₀
    | 1 => exact h₁
    | 2 => exact h₂
    | 3 => exact h₃
    | k + 4 => rw [if_neg (by unfold wordSize; omega)]; rfl

theorem Bytes.readWord?_eq_some_iff_hasWordAt {index : Nat} {word : Word} :
    bytes.readWord? index = some word ↔ bytes.HasWordAt index word := by
  constructor
  · intro h
    obtain ⟨-, hslice⟩ := Bytes.readWord?_eq_some_iff.1 h
    obtain ⟨b₀, b₁, b₂, b₃, hfour⟩ := Word.exists_toBytes_eq word
    have hword := Word.ofBytes_toBytes word
    rw [hfour] at hslice hword
    obtain ⟨h₀, h₁, h₂, h₃⟩ := Bytes.slice_eq_four_iff.1 hslice
    exact ⟨b₀, b₁, b₂, b₃, h₀, h₁, h₂, h₃, by rw [← Word.toInt_ofBytes_four, hword]⟩
  · rintro ⟨b₀, b₁, b₂, b₃, h₀, h₁, h₂, h₃, hword⟩
    have hfits : index + wordSize ≤ bytes.size := (Array.getElem?_eq_some_iff.1 h₃).1
    rw [← Word.toInt_ofBytes_four, Int32.toInt_inj] at hword
    rw [Bytes.readWord?, if_pos hfits, Bytes.slice_eq_four_iff.2 ⟨h₀, h₁, h₂, h₃⟩, hword]

/-! ### Writing -/

theorem Bytes.getElem?_overwrite_congr {a b : Bytes} {i : Nat} (hsize : a.size = b.size) (h : a[i]? = b[i]?)
    (offset : Nat) (values : List UInt8) : (a.overwrite offset values)[i]? = (b.overwrite offset values)[i]? := by
  rw [Bytes.getElem?_overwrite, Bytes.getElem?_overwrite, hsize, h]

/-- Stretches that do not meet are replaced in either order. -/
theorem Bytes.overwrite_comm {offset other : Nat} {values others : List UInt8}
    (h : offset + values.length ≤ other ∨ other + others.length ≤ offset) :
    (bytes.overwrite offset values).overwrite other others =
      (bytes.overwrite other others).overwrite offset values := by
  apply Array.ext_getElem?
  intro i
  -- no index lies in both stretches, so one of the two writes keeps the byte, whenever it takes place
  by_cases hi : i < offset ∨ offset + values.length ≤ i
  · rw [Bytes.getElem?_overwrite_of_outside hi]
    exact Bytes.getElem?_overwrite_congr (Bytes.size_overwrite _ _ _) (Bytes.getElem?_overwrite_of_outside hi) _ _
  · have hi' : i < other ∨ other + others.length ≤ i := by omega
    rw [Bytes.getElem?_overwrite_of_outside hi']
    symm
    exact Bytes.getElem?_overwrite_congr (Bytes.size_overwrite _ _ _) (Bytes.getElem?_overwrite_of_outside hi') _ _

theorem Bytes.writeWord?_comm {i j : Nat} {v w : Word} {a b : Bytes} (hapart : i + wordSize ≤ j ∨ j + wordSize ≤ i)
    (ha : bytes.writeWord? i v = some a) (hb : bytes.writeWord? j w = some b) :
    ∃ c, a.writeWord? j w = some c ∧ b.writeWord? i v = some c := by
  obtain ⟨hi, rfl⟩ := Bytes.writeWord?_eq_some_iff.1 ha
  obtain ⟨hj, rfl⟩ := Bytes.writeWord?_eq_some_iff.1 hb
  refine ⟨_, Bytes.writeWord?_eq_some_iff.2 ⟨?_, rfl⟩, Bytes.writeWord?_eq_some_iff.2 ⟨?_, ?_⟩⟩
  · rwa [Bytes.size_overwrite]
  · rwa [Bytes.size_overwrite]
  · exact Bytes.overwrite_comm (by rwa [Word.length_toBytes, Word.length_toBytes])

/-- Writing back the word that was read changes nothing. -/
theorem Bytes.writeWord?_of_readWord? {index : Nat} {word : Word} (h : bytes.readWord? index = some word) :
    bytes.writeWord? index word = some bytes := by
  obtain ⟨hfits, hslice⟩ := Bytes.readWord?_eq_some_iff.1 h
  exact Bytes.writeWord?_eq_some_iff.2 ⟨hfits, by rw [← hslice, Bytes.overwrite_slice]⟩

end

/-! ### All words -/

/-- How words are read from a buffer and written to it, at every index. -/
structure Bytes.HoldsWords (bytes : Bytes) : Prop where
  /-- In a buffer whose length is a register, registers do the same up to the last one, and a write in place that tells
  `false` leaves the buffer as it was. -/
  registers : bytes.size < Size.bound → ∀ (index : UInt64) (word : Word),
    bytes.readWordAt? index = bytes.readWord? index.toNat ∧
    writeWordAt index word bytes =
      match bytes.writeWord? index.toNat word with
      | some written => (true, written)
      | none => (false, bytes)
  readable_iff : ∀ index, (bytes.readWord? index).isSome ↔ index + 4 ≤ bytes.size
  writable_iff : ∀ index word, (bytes.writeWord? index word).isSome ↔ (bytes.readWord? index).isSome
  /-- The four bytes tell the word. -/
  read_iff : ∀ index word, bytes.readWord? index = some word ↔ bytes.HasWordAt index word
  written : ∀ index word after, bytes.writeWord? index word = some after →
    after.readWord? index = some word ∧ after.size = bytes.size ∧
      ∀ n, n < index ∨ index + 4 ≤ n → after[n]? = bytes[n]?
  written_back : ∀ index word, bytes.readWord? index = some word → bytes.writeWord? index word = some bytes
  /-- Words that do not overlap are written in either order. -/
  commute : ∀ i j v w a b, i + 4 ≤ j ∨ j + 4 ≤ i →
    bytes.writeWord? i v = some a → bytes.writeWord? j w = some b →
      ∃ c, a.writeWord? j w = some c ∧ b.writeWord? i v = some c

theorem Bytes.holdsWords (bytes : Bytes) : bytes.HoldsWords := by
  constructor
  case registers =>
    intro hsize index word
    exact ⟨Bytes.readWordAt?_eq hsize index, writeWordAt_apply hsize index word⟩
  case readable_iff =>
    intro index
    rw [Bytes.readWord?_isSome, decide_eq_true_iff]
    rfl
  case writable_iff =>
    intro index word
    rw [Bytes.writeWord?_isSome, Bytes.readWord?_isSome]
  case read_iff => exact fun _ _ => Bytes.readWord?_eq_some_iff_hasWordAt
  case written =>
    intro index word after h
    refine ⟨Bytes.readWord?_of_writeWord? h, ?_⟩
    obtain ⟨-, rfl⟩ := Bytes.writeWord?_eq_some_iff.1 h
    refine ⟨Bytes.size_overwrite _ _ _, fun n hn => Bytes.getElem?_overwrite_of_outside ?_⟩
    rwa [Word.length_toBytes]
  case written_back => exact fun _ _ => Bytes.writeWord?_of_readWord?
  case commute => exact fun _ _ _ _ _ _ hapart => Bytes.writeWord?_comm hapart

-- the lowest byte stands first, and the sign is the highest bit of the last one
example :
    let bytes : Bytes := #[0, 0, 0, 0, 0, 128]
    bytes.writeWord? 1 0x04030201 = some #[0, 1, 2, 3, 4, 128] ∧ bytes.readWord? 2 = some (-2147483648) ∧
      bytes.readWord? 3 = none := by
  decide

end StackMachine
