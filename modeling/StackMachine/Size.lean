/-!
# Sizes and alignment

Sizes are natural numbers.  `roundUp` gives the least multiple of an alignment that is not below a size
(`roundUp_le_iff`), and `Size.total` adds sizes up.  Where a size has to fit a 64-bit register, `Size.add?`,
`Size.roundUp?` and `Size.total?` compute it step by step and give nothing as soon as one step does not fit.
-/

namespace StackMachine

/-- The least multiple of `multiple` that is at least `size`. -/
def roundUp (size multiple : Nat) : Nat :=
  (size + multiple - 1) / multiple * multiple

/-- The largest signed 32-bit number: no address, code offset or image size exceeds it. -/
def maxWord : Nat := 2147483647

/-- The sum of sizes. -/
def Size.total (sizes : List Nat) : Nat :=
  sizes.foldr (· + ·) 0

/-- Sizes below this bound fit a 64-bit register. -/
def Size.bound : Nat := UInt64.size

/-- The sum, if it fits a 64-bit register. -/
def Size.add? (a b : Nat) : Option Nat :=
  if a + b < Size.bound then some (a + b) else none

/-- The size rounded up, if there is a multiple to round to and it fits a 64-bit register. -/
def Size.roundUp? (size multiple : Nat) : Option Nat :=
  if 0 < multiple ∧ roundUp size multiple < Size.bound then some (roundUp size multiple) else none

/-- The sum of sizes, if it fits a 64-bit register after each of them. -/
def Size.total? (sizes : List Nat) : Option Nat :=
  sizes.foldlM Size.add? 0

@[simp] theorem Size.total_nil : Size.total [] = 0 := rfl

@[simp] theorem Size.total_cons (size : Nat) (sizes : List Nat) :
    Size.total (size :: sizes) = size + Size.total sizes := rfl

@[simp] theorem Size.total_append (sizes others : List Nat) :
    Size.total (sizes ++ others) = Size.total sizes + Size.total others := by
  induction sizes with
  | nil => simp
  | cons size sizes ih => simp [ih, Nat.add_assoc]

theorem Size.le_total_of_mem {sizes : List Nat} {size : Nat} (h : size ∈ sizes) : size ≤ Size.total sizes := by
  induction sizes with
  | nil => cases h
  | cons first sizes ih =>
    rw [Size.total_cons]
    rcases List.mem_cons.1 h with rfl | h
    · omega
    · have := ih h
      omega

theorem roundUp_dvd (size multiple : Nat) : multiple ∣ roundUp size multiple :=
  Nat.dvd_mul_left _ _

theorem le_roundUp (size : Nat) {multiple : Nat} (h : 0 < multiple) : size ≤ roundUp size multiple := by
  have hmod := Nat.mod_lt (size + multiple - 1) h
  have hdiv := Nat.div_add_mod (size + multiple - 1) multiple
  rw [Nat.mul_comm] at hdiv
  unfold roundUp
  omega

theorem roundUp_lt (size : Nat) {multiple : Nat} (h : 0 < multiple) :
    roundUp size multiple < size + multiple := by
  have := Nat.div_mul_le_self (size + multiple - 1) multiple
  unfold roundUp
  omega

/-- A multiple is at least the rounded size exactly if it is at least the size. -/
theorem roundUp_le_iff {size multiple total : Nat} (h : 0 < multiple) (hd : multiple ∣ total) :
    roundUp size multiple ≤ total ↔ size ≤ total := by
  constructor
  · exact Nat.le_trans (le_roundUp size h)
  · intro hle
    obtain ⟨k, rfl⟩ := hd
    have hlt : (size + multiple - 1) / multiple < k + 1 := by
      rw [Nat.div_lt_iff_lt_mul h, Nat.add_mul, Nat.mul_comm k, Nat.one_mul]
      omega
    rw [roundUp, Nat.mul_comm multiple]
    exact Nat.mul_le_mul_right _ (Nat.le_of_lt_succ hlt)

/-- Rounding keeps the order of sizes. -/
theorem roundUp_mono {a b multiple : Nat} (h : a ≤ b) : roundUp a multiple ≤ roundUp b multiple := by
  unfold roundUp
  exact Nat.mul_le_mul_right _ (Nat.div_le_div_right (by omega))

/-! ### Sizes in registers -/

theorem Size.add?_eq_some_iff {a b n : Nat} : Size.add? a b = some n ↔ n = a + b ∧ n < Size.bound := by
  rw [Size.add?, Option.ite_none_right_eq_some, Option.some.injEq]
  constructor
  · rintro ⟨hfits, rfl⟩
    exact ⟨rfl, hfits⟩
  · rintro ⟨rfl, hfits⟩
    exact ⟨hfits, rfl⟩

theorem Size.roundUp?_eq_some_iff {size multiple n : Nat} (h : 0 < multiple) :
    Size.roundUp? size multiple = some n ↔ n = roundUp size multiple ∧ n < Size.bound := by
  rw [Size.roundUp?, Option.ite_none_right_eq_some, Option.some.injEq, and_iff_right h]
  constructor
  · rintro ⟨hfits, rfl⟩
    exact ⟨rfl, hfits⟩
  · rintro ⟨rfl, hfits⟩
    exact ⟨hfits, rfl⟩

private theorem foldlM_add?_eq_some_iff {sizes : List Nat} {start n : Nat} (hstart : start < Size.bound) :
    sizes.foldlM Size.add? start = some n ↔ n = start + Size.total sizes ∧ n < Size.bound := by
  induction sizes generalizing start with
  | nil =>
    constructor
    · intro h
      cases h
      exact ⟨rfl, hstart⟩
    · rintro ⟨rfl, -⟩
      rfl
  | cons size sizes ih =>
    rw [List.foldlM_cons, Option.bind_eq_bind, Option.bind_eq_some_iff, Size.total_cons]
    constructor
    · rintro ⟨next, hnext, h⟩
      obtain ⟨rfl, hfits⟩ := Size.add?_eq_some_iff.1 hnext
      obtain ⟨rfl, hn⟩ := (ih hfits).1 h
      exact ⟨by omega, hn⟩
    · rintro ⟨rfl, hn⟩
      have hfits : start + size < Size.bound := by omega
      exact ⟨start + size, Size.add?_eq_some_iff.2 ⟨rfl, hfits⟩, (ih hfits).2 ⟨by omega, hn⟩⟩

/-- No partial sum is greater than the whole sum. -/
theorem Size.total?_eq_some_iff {sizes : List Nat} {n : Nat} :
    Size.total? sizes = some n ↔ n = Size.total sizes ∧ n < Size.bound := by
  rw [Size.total?, foldlM_add?_eq_some_iff (by decide), Nat.zero_add]

end StackMachine
