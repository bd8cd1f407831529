import StackMachine.Bytes.Basic

/-!
# Little-endian numbers and words

A number is stored with its lowest byte first.  A word is a signed 32-bit number; it takes four bytes, and
`Word.ofBytes` and `Word.toBytes` are inverse to each other on lists of four bytes.  `Bytes.readWord?` and
`Bytes.writeWord?` are defined exactly when four bytes remain at the index.
-/

namespace StackMachine

/-- The lowest `width` bytes of a number, lowest first. -/
def littleEndian : (width : Nat) → Nat → List UInt8
  | 0, _ => []
  | width + 1, n => UInt8.ofNat n :: littleEndian width (n / 256)

/-- The number whose bytes, lowest first, are given. -/
def ofLittleEndian : List UInt8 → Nat
  | [] => 0
  | b :: rest => b.toNat + 256 * ofLittleEndian rest

@[simp] theorem length_littleEndian (width n : Nat) : (littleEndian width n).length = width := by
  induction width generalizing n with
  | zero => rfl
  | succ width ih => simp [littleEndian, ih]

theorem ofLittleEndian_lt (bytes : List UInt8) : ofLittleEndian bytes < Nat.pow 256 bytes.length := by
  induction bytes with
  | nil => simp [ofLittleEndian]
  | cons b rest ih =>
    have hbyte := b.toNat_lt
    have hpow : Nat.pow 256 (rest.length + 1) = Nat.pow 256 rest.length * 256 := rfl
    rw [ofLittleEndian, List.length_cons, hpow]
    omega

/-- A number that fits is read back. -/
theorem ofLittleEndian_littleEndian {width n : Nat} (h : n < Nat.pow 256 width) :
    ofLittleEndian (littleEndian width n) = n := by
  induction width generalizing n with
  | zero =>
    have hpow : Nat.pow 256 0 = 1 := rfl
    rw [littleEndian, ofLittleEndian]
    omega
  | succ width ih =>
    have hpow : Nat.pow 256 (width + 1) = Nat.pow 256 width * 256 := rfl
    rw [littleEndian, ofLittleEndian, ih (by omega), UInt8.toNat_ofNat']
    omega

/-- Every list of bytes is the little-endian form of its number. -/
theorem littleEndian_ofLittleEndian (bytes : List UInt8) :
    littleEndian bytes.length (ofLittleEndian bytes) = bytes := by
  induction bytes with
  | nil => rfl
  | cons b rest ih =>
    have hb := b.toNat_lt
    have hdiv : (b.toNat + 256 * ofLittleEndian rest) / 256 = ofLittleEndian rest := by omega
    have hmod : UInt8.ofNat (b.toNat + 256 * ofLittleEndian rest) = b := by
      apply UInt8.toNat_inj.1
      rw [UInt8.toNat_ofNat']
      omega
    rw [List.length_cons, ofLittleEndian, littleEndian, hdiv, hmod, ih]

/-! ### Words -/

/-- A signed 32-bit number: what operands hold, what the operand stack holds, and what addresses are. -/
abbrev Word := Int32

/-- Bytes in a word. -/
def wordSize : Nat := 4

/-- The four bytes of a word. -/
def Word.toBytes (word : Word) : List UInt8 :=
  littleEndian wordSize word.toUInt32.toNat

/-- The word with the given four bytes. -/
def Word.ofBytes (bytes : List UInt8) : Word :=
  (UInt32.ofNat (ofLittleEndian bytes)).toInt32

@[simp] theorem Word.length_toBytes (word : Word) : (Word.toBytes word).length = wordSize :=
  length_littleEndian _ _

@[simp] theorem Word.ofBytes_toBytes (word : Word) : Word.ofBytes (Word.toBytes word) = word := by
  rw [Word.ofBytes, Word.toBytes, ofLittleEndian_littleEndian word.toUInt32.toNat_lt]
  simp

theorem Word.toBytes_ofBytes {bytes : List UInt8} (h : bytes.length = wordSize) :
    Word.toBytes (Word.ofBytes bytes) = bytes := by
  have hlt : ofLittleEndian bytes < Nat.pow 256 wordSize := h ▸ ofLittleEndian_lt bytes
  have hpow : Nat.pow 256 wordSize = 4294967296 := rfl
  have hword : (Word.ofBytes bytes).toUInt32.toNat = ofLittleEndian bytes := by
    simp only [Word.ofBytes, UInt32.toUInt32_toInt32, UInt32.toNat_ofNat']
    omega
  rw [Word.toBytes, hword, ← h, littleEndian_ofLittleEndian]

/-- Reads the word at `index`, if four bytes remain there. -/
def Bytes.readWord? (bytes : Bytes) (index : Nat) : Option Word :=
  if index + wordSize ≤ bytes.size then some (Word.ofBytes (bytes.slice index wordSize)) else none

/-- Writes the word at `index`, if four bytes remain there. -/
def Bytes.writeWord? (bytes : Bytes) (index : Nat) (word : Word) : Option Bytes :=
  if index + wordSize ≤ bytes.size then some (bytes.overwrite index (Word.toBytes word)) else none

theorem Bytes.readWord?_isSome (bytes : Bytes) (index : Nat) :
    (bytes.readWord? index).isSome = decide (index + wordSize ≤ bytes.size) := by
  unfold Bytes.readWord?
  split <;> simp [*]

theorem Bytes.writeWord?_isSome (bytes : Bytes) (index : Nat) (word : Word) :
    (bytes.writeWord? index word).isSome = decide (index + wordSize ≤ bytes.size) := by
  unfold Bytes.writeWord?
  split <;> simp [*]

/-- A word is read where its four bytes stand. -/
theorem Bytes.readWord?_eq_some_iff {bytes : Bytes} {index : Nat} {word : Word} :
    bytes.readWord? index = some word ↔
      index + wordSize ≤ bytes.size ∧ bytes.slice index wordSize = Word.toBytes word := by
  rw [Bytes.readWord?, Option.ite_none_right_eq_some, Option.some.injEq]
  refine and_congr_right fun hfits => ?_
  constructor
  · rintro rfl
    rw [Word.toBytes_ofBytes (Bytes.length_slice_of_le hfits)]
  · intro h
    rw [h, Word.ofBytes_toBytes]

theorem Bytes.writeWord?_eq_some_iff {bytes written : Bytes} {index : Nat} {word : Word} :
    bytes.writeWord? index word = some written ↔
      index + wordSize ≤ bytes.size ∧ written = bytes.overwrite index (Word.toBytes word) := by
  rw [Bytes.writeWord?, Option.ite_none_right_eq_some, Option.some.injEq]
  exact and_congr_right fun _ => eq_comm

/-- A word that was written is read back. -/
theorem Bytes.readWord?_of_writeWord? {bytes written : Bytes} {index : Nat} {word : Word}
    (h : bytes.writeWord? index word = some written) : written.readWord? index = some word := by
  obtain ⟨hfits, rfl⟩ := Bytes.writeWord?_eq_some_iff.1 h
  rw [Bytes.readWord?_eq_some_iff, Bytes.size_overwrite]
  refine ⟨hfits, ?_⟩
  rw [← Word.length_toBytes word] at hfits ⊢
  exact Bytes.slice_overwrite hfits

end StackMachine
