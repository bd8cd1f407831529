/-!
# Byte buffers

A buffer is an array of bytes that never changes its length.  Two operations are enough for everything the
library does with one: `Bytes.slice` reads a stretch of bytes as a list, and `Bytes.overwrite` replaces a stretch.
`Bytes.getElem?_slice` and `Bytes.getElem?_overwrite` say what each does to every single index, and
`Bytes.slice_overwrite` that what was written can be read back.
-/

namespace StackMachine

/-- A buffer of bytes. -/
abbrev Bytes := Array UInt8

/-- A buffer of `count` zero bytes. -/
def Bytes.zeros (count : Nat) : Bytes :=
  Array.replicate count 0

/-- The `count` bytes from `offset` on, or as many of them as the buffer holds. -/
def Bytes.slice (bytes : Bytes) (offset count : Nat) : List UInt8 :=
  (bytes.extract offset (offset + count)).toList

/-- The buffer with the bytes from `offset` on replaced by the given ones; bytes past the end are dropped. -/
def Bytes.overwrite (bytes : Bytes) (offset : Nat) : List UInt8 → Bytes
  | [] => bytes
  | b :: rest => Bytes.overwrite (bytes.setIfInBounds offset b) (offset + 1) rest

@[simp] theorem Bytes.size_zeros (count : Nat) : (Bytes.zeros count).size = count := by
  simp [Bytes.zeros]

theorem Bytes.getElem?_zeros (count i : Nat) :
    (Bytes.zeros count)[i]? = if i < count then some 0 else none := by
  simp [Bytes.zeros, Array.getElem?_replicate]

/-! ### Reading a stretch -/

theorem Bytes.slice_eq_take_drop (bytes : Bytes) (offset count : Nat) :
    bytes.slice offset count = (bytes.toList.drop offset).take count := by
  simp [Bytes.slice, List.extract_eq_take_drop]

@[simp] theorem Bytes.length_slice (bytes : Bytes) (offset count : Nat) :
    (bytes.slice offset count).length = min count (bytes.size - offset) := by
  simp [Bytes.slice_eq_take_drop]

/-- A slice that ends inside the buffer has the length asked for. -/
theorem Bytes.length_slice_of_le {bytes : Bytes} {offset count : Nat} (h : offset + count ≤ bytes.size) :
    (bytes.slice offset count).length = count := by
  rw [Bytes.length_slice]
  omega

theorem Bytes.getElem?_slice (bytes : Bytes) (offset count i : Nat) :
    (bytes.slice offset count)[i]? = if i < count then bytes[offset + i]? else none := by
  rw [Bytes.slice_eq_take_drop, List.getElem?_take]
  split <;> simp

/-! ### Replacing a stretch -/

@[simp] theorem Bytes.size_overwrite (bytes : Bytes) (offset : Nat) (values : List UInt8) :
    (bytes.overwrite offset values).size = bytes.size := by
  induction values generalizing bytes offset with
  | nil => rfl
  | cons b rest ih => simp [Bytes.overwrite, ih]

/-- Inside the stretch stand the new bytes, outside it the old ones. -/
theorem Bytes.getElem?_overwrite (bytes : Bytes) (offset : Nat) (values : List UInt8) (i : Nat) :
    (bytes.overwrite offset values)[i]? =
      if offset ≤ i ∧ i < offset + values.length ∧ i < bytes.size then values[i - offset]? else bytes[i]? := by
  induction values generalizing bytes offset with
  | nil =>
    have : ¬ (offset ≤ i ∧ i < offset + ([] : List UInt8).length ∧ i < bytes.size) := by
      simp only [List.length_nil]
      omega
    rw [if_neg this]
    rfl
  | cons b rest ih =>
    rw [Bytes.overwrite, ih, Array.size_setIfInBounds, Array.getElem?_setIfInBounds]
    simp only [List.length_cons]
    by_cases hi : i = offset
    · subst hi
      rw [if_neg (by omega), if_pos rfl]
      by_cases hs : i < bytes.size
      · rw [if_pos hs, if_pos (by omega)]
        simp
      · rw [if_neg hs, if_neg (by omega), Array.getElem?_eq_none (by omega)]
    · rw [if_neg (Ne.symm hi)]
      by_cases hw : offset + 1 ≤ i ∧ i < offset + 1 + rest.length ∧ i < bytes.size
      · obtain ⟨k, hk⟩ : ∃ k, i - offset = k + 1 := ⟨i - offset - 1, by omega⟩
        rw [if_pos hw, if_pos (by omega), hk, List.getElem?_cons_succ]
        congr 1
        omega
      · rw [if_neg hw, if_neg (by omega)]

/-- Bytes outside the stretch are kept. -/
theorem Bytes.getElem?_overwrite_of_outside {bytes : Bytes} {offset : Nat} {values : List UInt8} {i : Nat}
    (h : i < offset ∨ offset + values.length ≤ i) : (bytes.overwrite offset values)[i]? = bytes[i]? := by
  rw [Bytes.getElem?_overwrite, if_neg (by omega)]

/-- Bytes inside the stretch are the given ones. -/
theorem Bytes.getElem?_overwrite_of_inside {bytes : Bytes} {offset : Nat} {values : List UInt8} {k : Nat}
    (hk : k < values.length) (h : offset + values.length ≤ bytes.size) :
    (bytes.overwrite offset values)[offset + k]? = values[k]? := by
  rw [Bytes.getElem?_overwrite, if_pos (by omega), Nat.add_sub_cancel_left]

/-- What was written inside the buffer is read back. -/
theorem Bytes.slice_overwrite {bytes : Bytes} {offset : Nat} {values : List UInt8}
    (h : offset + values.length ≤ bytes.size) :
    (bytes.overwrite offset values).slice offset values.length = values := by
  apply List.ext_getElem?
  intro i
  rw [Bytes.getElem?_slice]
  split
  · rename_i hi
    exact Bytes.getElem?_overwrite_of_inside hi h
  · rw [List.getElem?_eq_none (by omega)]

/-- Writing back what was read changes nothing. -/
theorem Bytes.overwrite_slice (bytes : Bytes) (offset count : Nat) :
    bytes.overwrite offset (bytes.slice offset count) = bytes := by
  apply Array.ext_getElem?
  intro i
  rw [Bytes.getElem?_overwrite]
  split
  · rename_i h
    rw [Bytes.length_slice] at h
    rw [Bytes.getElem?_slice, if_pos (by omega)]
    congr 1
    omega
  · rfl

end StackMachine
