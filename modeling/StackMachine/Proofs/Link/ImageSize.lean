import Mathlib.Order.Bounds.Basic
import StackMachine.Proofs.Bytes.Words
import StackMachine.Proofs.Link.Linking

/-!
# The size of an image

The size of an image is the least multiple of the alignment that holds the static data, with the stack and the heap added
to it.  It is computed in 64-bit registers, where every step may fail to fit.  Since an image has to be far smaller than
what a register holds, no step fails for an image that is small enough, and none wraps around for one that is not:
`Config.sizesExactly`.

The steps are stated twice: on naturals with a bound, as the configuration has them, and on registers that wrap
(`Config.imageSizeInRegisters`).  That both agree is `map_imageSizeInRegisters`.
-/

namespace StackMachine

/-! ### Registers -/

/-- The first multiple from a size on, unless there is none that a register holds. -/
def Register.nextMultiple? (size multiple : UInt64) : Option UInt64 :=
  if multiple = 0 then none
  else if size % multiple = 0 then some size
  else Register.add? size (multiple - size % multiple)

/-- The size of the image, if every step fits a register. -/
def Config.imageSizeInRegisters? (config : Config) (staticDataSize : UInt64) : Option UInt64 := do
  let data ← Register.nextMultiple? staticDataSize config.dataSegmentAlignment
  let withStack ← Register.add? data config.stackSize
  Register.add? withStack config.heapSize

/-- The size of the image with the given amount of static data, in registers. -/
def Config.imageSizeInRegisters (config : Config) (staticDataSize : UInt64) : Except ConfigFlaw UInt64 :=
  match config.imageSizeInRegisters? staticDataSize with
  | some total => if total.toNat ≤ maxWord then .ok total else .error (.imageTooLarge staticDataSize.toNat)
  | none => .error (.imageTooLarge staticDataSize.toNat)

theorem Register.toNat_pos_iff {n : UInt64} : 0 < n.toNat ↔ n ≠ 0 := by
  rw [Nat.pos_iff_ne_zero, Ne, Ne, ← UInt64.toNat_inj]
  rfl

/-- A size is rounded up by what its remainder leaves of the multiple. -/
theorem roundUp_eq_add_sub_mod (size : Nat) {multiple : Nat} (h : 0 < multiple) :
    roundUp size multiple = if size % multiple = 0 then size else size + (multiple - size % multiple) := by
  have hmod := Nat.mod_lt size h
  have hdiv := Nat.div_add_mod size multiple
  apply Nat.le_antisymm
  · split
    · rename_i hzero
      exact (roundUp_le_iff h (Nat.dvd_of_mod_eq_zero hzero)).2 (Nat.le_refl _)
    · refine (roundUp_le_iff h ⟨size / multiple + 1, ?_⟩).2 (Nat.le_add_right _ _)
      rw [Nat.mul_add, Nat.mul_one]
      omega
  · have hle := le_roundUp size h
    split
    · exact hle
    · rename_i hzero
      -- the multiple that is reached lies behind the one below the size
      obtain ⟨k, hk⟩ := roundUp_dvd size multiple
      have hlt : size / multiple < k := by
        by_contra hnot
        have := Nat.mul_le_mul_left multiple (Nat.le_of_not_lt hnot)
        omega
      have := Nat.mul_le_mul_left multiple (Nat.succ_le_of_lt hlt)
      rw [Nat.mul_succ] at this
      omega

theorem Register.map_nextMultiple? (size multiple : UInt64) :
    (Register.nextMultiple? size multiple).map UInt64.toNat = Size.roundUp? size.toNat multiple.toNat := by
  unfold Register.nextMultiple? Size.roundUp?
  by_cases hzero : multiple = 0
  · subst hzero
    simp
  · have hpos := Register.toNat_pos_iff.2 hzero
    have hlt := Nat.mod_lt size.toNat hpos
    have hrounded := roundUp_eq_add_sub_mod size.toNat hpos
    have hmod : size % multiple = 0 ↔ size.toNat % multiple.toNat = 0 := by
      rw [← UInt64.toNat_inj, UInt64.toNat_mod]
      rfl
    rw [if_neg hzero]
    by_cases hdvd : size % multiple = 0
    · rw [if_pos (hmod.1 hdvd)] at hrounded
      rw [if_pos hdvd, hrounded, if_pos ⟨hpos, size.toNat_lt⟩, Option.map_some]
    · have hsub : (multiple - size % multiple).toNat = multiple.toNat - size.toNat % multiple.toNat := by
        rw [UInt64.toNat_sub_of_le _ _ (by rw [UInt64.le_iff_toNat_le, UInt64.toNat_mod]; omega), UInt64.toNat_mod]
      rw [if_neg (fun h => hdvd (hmod.2 h))] at hrounded
      rw [if_neg hdvd, Register.map_add?, hsub, Size.add?, ← hrounded]
      simp [hpos]

theorem Config.map_imageSizeInRegisters? (config : Config) (staticDataSize : UInt64) :
    (config.imageSizeInRegisters? staticDataSize).map UInt64.toNat = config.imageSize? staticDataSize.toNat := by
  unfold Config.imageSizeInRegisters? Config.imageSize?
  simp only [← Register.map_nextMultiple?, Option.bind_eq_bind, Option.map_bind, Option.bind_map]
  congr 1
  funext data
  simp only [Function.comp_apply, ← Register.map_add?, Option.map_bind, Option.bind_map]

/-- What registers compute is what naturals below the bound compute. -/
theorem Config.map_imageSizeInRegisters (config : Config) (staticDataSize : UInt64) :
    (config.imageSizeInRegisters staticDataSize).map UInt64.toNat = config.imageSize staticDataSize.toNat := by
  unfold Config.imageSizeInRegisters Config.imageSize
  rw [← Config.map_imageSizeInRegisters?]
  cases config.imageSizeInRegisters? staticDataSize with
  | none => rfl
  | some total =>
    dsimp only [Option.map_some]
    split <;> rfl

/-! ### Exact sizes -/

/-- The room for static data is the least multiple of the alignment that holds it. -/
def Config.IsDataSize (config : Config) (staticDataSize data : Nat) : Prop :=
  IsLeast {size | config.dataSegmentAlignment.toNat ∣ size ∧ staticDataSize ≤ size} data

theorem Config.isDataSize_iff {config : Config} (h : 0 < config.dataSegmentAlignment.toNat) {staticDataSize data : Nat} :
    config.IsDataSize staticDataSize data ↔ data = roundUp staticDataSize config.dataSegmentAlignment.toNat := by
  have hleast : config.IsDataSize staticDataSize (roundUp staticDataSize config.dataSegmentAlignment.toNat) := by
    refine ⟨⟨roundUp_dvd _ _, le_roundUp _ h⟩, fun size hsize => ?_⟩
    exact (roundUp_le_iff h hsize.1).2 hsize.2
  constructor
  · intro hdata
    exact hdata.unique hleast
  · rintro rfl
    exact hleast

theorem Config.imageSize_eq_ok_iff {config : Config} {staticDataSize total : Nat} :
    config.imageSize staticDataSize = .ok total ↔
      0 < config.dataSegmentAlignment.toNat ∧ total ≤ maxWord ∧
        total = roundUp staticDataSize config.dataSegmentAlignment.toNat + config.stackSize.toNat +
          config.heapSize.toNat := by
  refine ⟨Config.imageSize_ok, ?_⟩
  rintro ⟨hpos, hle, htotal⟩
  have hmax : maxWord < Size.bound := by decide
  have hsteps : config.imageSize? staticDataSize = some total := by
    unfold Config.imageSize? Size.roundUp? Size.add?
    rw [if_pos ⟨hpos, by omega⟩]
    change ((if _ then _ else _ : Option Nat).bind fun _ => _) = _
    rw [if_pos (by omega), Option.bind_some, if_pos (by omega), htotal]
  unfold Config.imageSize
  rw [hsteps]
  exact if_pos hle

theorem Config.eq_imageTooLarge_of_imageSize {config : Config} {staticDataSize : Nat} {flaw : ConfigFlaw}
    (h : config.imageSize staticDataSize = .error flaw) : flaw = .imageTooLarge staticDataSize := by
  unfold Config.imageSize at h
  split at h
  · split at h
    · cases h
    · cases h
      rfl
  · cases h
    rfl

theorem Config.exists_imageSize_of_le {config : Config} {m n total : Nat} (hmn : m ≤ n)
    (h : config.imageSize n = .ok total) : ∃ smaller, config.imageSize m = .ok smaller ∧ smaller ≤ total := by
  obtain ⟨hpos, hle, htotal⟩ := Config.imageSize_eq_ok_iff.1 h
  have hround : roundUp m config.dataSegmentAlignment.toNat ≤ roundUp n config.dataSegmentAlignment.toNat :=
    roundUp_mono hmn
  exact ⟨_, Config.imageSize_eq_ok_iff.2 ⟨hpos, by omega, rfl⟩, by omega⟩

theorem Config.validate_eq_ok_iff {config : Config} :
    config.validate = .ok () ↔ config.dataSegmentAlignment ≠ 0 ∧ config.staticDataAlignment ≠ 0 ∧
      config.stackSize.toNat + config.heapSize.toNat ≤ maxWord := by
  have hzero : ∀ multiple, roundUp 0 multiple = 0 := by
    intro multiple
    rcases Nat.eq_zero_or_pos multiple with rfl | hpos
    · rfl
    · rw [roundUp_eq_add_sub_mod 0 hpos, if_pos (Nat.zero_mod _)]
  have hempty : (∃ total, config.imageSize 0 = .ok total) ↔
      config.dataSegmentAlignment ≠ 0 ∧ config.stackSize.toNat + config.heapSize.toNat ≤ maxWord := by
    simp only [Config.imageSize_eq_ok_iff, Register.toNat_pos_iff, hzero, Nat.zero_add]
    constructor
    · rintro ⟨total, hne, hle, rfl⟩
      exact ⟨hne, hle⟩
    · rintro ⟨hne, hle⟩
      exact ⟨_, hne, hle, rfl⟩
  unfold Config.validate
  split
  · rename_i hdata
    simp [hdata]
  · rename_i hdata
    split
    · rename_i hstatic
      simp [hstatic]
    · rename_i hstatic
      rw [and_iff_right hdata] at hempty
      rw [and_iff_right hdata, and_iff_right hstatic, ← hempty]
      cases config.imageSize 0 <;> simp [Except.map]

/-- How a configuration sizes images. -/
structure Config.SizesExactly (config : Config) : Prop where
  /-- The steps are those of registers. -/
  registers : ∀ staticDataSize : UInt64,
    (config.imageSizeInRegisters staticDataSize).map UInt64.toNat = config.imageSize staticDataSize.toNat
  /-- Just the images that fit are made, with the size that exact arithmetic gives. -/
  ok_iff : config.dataSegmentAlignment ≠ 0 → ∀ staticDataSize total,
    config.imageSize staticDataSize = .ok total ↔
      ∃ data, config.IsDataSize staticDataSize data ∧
        total = data + config.stackSize.toNat + config.heapSize.toNat ∧ total ≤ maxWord
  zero : config.dataSegmentAlignment = 0 → ∀ staticDataSize,
    config.imageSize staticDataSize = .error (.imageTooLarge staticDataSize)
  refused : ∀ staticDataSize flaw, config.imageSize staticDataSize = .error flaw → flaw = .imageTooLarge staticDataSize
  validate_iff : config.validate = .ok () ↔
    config.dataSegmentAlignment ≠ 0 ∧ config.staticDataAlignment ≠ 0 ∧
      config.stackSize.toNat + config.heapSize.toNat ≤ maxWord
  monotone : ∀ m n total, m ≤ n → config.imageSize n = .ok total →
    ∃ smaller, config.imageSize m = .ok smaller ∧ smaller ≤ total
  /-- What is left of an image without stack and heap is the room for static data, and the differences are exact. -/
  linked : ∀ (loader : Loader) (image : Image), loader.config = config → loader.link = .ok image →
    ∃ total, config.imageSize loader.staticDataSize = .ok total ∧
      config.stackSize.toNat ≤ total ∧ config.heapSize.toNat ≤ total - config.stackSize.toNat ∧
      image.memory.layout.dataSize = total - config.stackSize.toNat - config.heapSize.toNat ∧
      config.IsDataSize loader.staticDataSize image.memory.layout.dataSize

theorem Loader.layout_of_link {loader : Loader} {image : Image} (h : loader.link = .ok image) :
    ∃ total, loader.config.imageSize loader.staticDataSize = .ok total ∧
      image.memory.layout = loader.layout total := by
  unfold Loader.link at h
  split at h
  · cases h
  · rename_i total hsize
    split at h
    · cases h
    · cases h
      exact ⟨total, hsize, (loader.sameShape_memory _).layout_eq⟩

theorem Config.sizesExactly (config : Config) : config.SizesExactly := by
  constructor
  case registers => exact config.map_imageSizeInRegisters
  case ok_iff =>
    intro hne staticDataSize total
    have hpos := Register.toNat_pos_iff.2 hne
    simp only [Config.imageSize_eq_ok_iff, Config.isDataSize_iff hpos]
    constructor
    · rintro ⟨-, hle, htotal⟩
      exact ⟨_, rfl, htotal, hle⟩
    · rintro ⟨_, rfl, htotal, hle⟩
      exact ⟨hpos, hle, htotal⟩
  case zero =>
    intro hzero staticDataSize
    cases hsize : config.imageSize staticDataSize with
    | error flaw => rw [Config.eq_imageTooLarge_of_imageSize hsize]
    | ok total =>
      have hpos := (Config.imageSize_eq_ok_iff.1 hsize).1
      rw [hzero] at hpos
      cases hpos
  case refused =>
    intro staticDataSize flaw h
    exact Config.eq_imageTooLarge_of_imageSize h
  case validate_iff => exact Config.validate_eq_ok_iff
  case monotone =>
    intro m n total hmn h
    exact Config.exists_imageSize_of_le hmn h
  case linked =>
    rintro loader image rfl hlink
    obtain ⟨total, hsize, hlayout⟩ := Loader.layout_of_link hlink
    obtain ⟨hpos, -, htotal⟩ := Config.imageSize_eq_ok_iff.1 hsize
    have hdata : image.memory.layout.dataSize =
        total - loader.config.stackSize.toNat - loader.config.heapSize.toNat := by
      rw [hlayout]
      rfl
    refine ⟨total, hsize, by omega, by omega, hdata, ?_⟩
    rw [Config.isDataSize_iff hpos]
    omega

end StackMachine
