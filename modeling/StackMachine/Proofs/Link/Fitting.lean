import StackMachine.Proofs.Link.History
import StackMachine.Proofs.Link.ImageSize
import StackMachine.Session

/-!
# Accounts that fit registers

The room for static data is added up in 64-bit registers while functions are loaded, before the size of an image is
computed from it.  Exact arithmetic and registers agree as long as the exact sum fits (`Function.footprint?_eq_some_iff`,
`Loader.Consistent.load?_eq`), and an image that is too large is then refused when it is made.

An accepted configuration bounds the stack and the heap, but not the alignment of static data.  So the sum can leave the
range of a register: `load?_twoByteBlocks` has two blocks of one byte each.  The slot of a single block never does, and a
bound on the alignment keeps the sum in range for every function that memory can hold: `Loader.Reached.fitsExactly`.
-/

namespace StackMachine

/-! ### One function -/

theorem Block.slotSize?_eq_some_iff {block : Block} {alignment n : Nat} (h : 0 < alignment) :
    block.slotSize? alignment = some n ↔ n = block.slotSize alignment ∧ n < Size.bound :=
  Size.roundUp?_eq_some_iff h

theorem Block.slotSize_le (block : Block) {alignment : Nat} (h : 0 < alignment) :
    block.slotSize alignment ≤ block.data.size + alignment := by
  have hlt := roundUp_lt (max 1 block.data.size) h
  unfold Block.slotSize
  omega

/-- The slot of a block that takes less than half of what a register counts is in range. -/
theorem Block.slotSize_lt (block : Block) {alignment : Nat} (h : 0 < alignment) (halignment : alignment < Size.bound)
    (hsize : 2 * block.data.size < Size.bound) : block.slotSize alignment < Size.bound := by
  have hbound : Size.bound = 18446744073709551616 := rfl
  unfold Block.slotSize
  by_cases hle : max 1 block.data.size ≤ alignment
  · -- one alignment is enough
    have hone := (roundUp_le_iff h (Nat.dvd_refl alignment)).2 hle
    omega
  · have hlt := roundUp_lt (max 1 block.data.size) h
    omega

private theorem mapM_slotSize?_eq_some_iff {blocks : List Block} {alignment : Nat} (h : 0 < alignment)
    {sizes : List Nat} :
    (blocks.mapM fun block => block.slotSize? alignment) = some sizes ↔
      sizes = blocks.map (·.slotSize alignment) ∧ ∀ size ∈ sizes, size < Size.bound := by
  induction blocks generalizing sizes with
  | nil =>
    constructor
    · intro heq
      cases heq
      exact ⟨rfl, by simp⟩
    · rintro ⟨rfl, -⟩
      rfl
  | cons block blocks ih =>
    simp only [List.mapM_cons, Option.bind_eq_bind, Option.bind_eq_some_iff, Block.slotSize?_eq_some_iff h, ih,
      Option.pure_def, Option.some.injEq, List.map_cons]
    constructor
    · rintro ⟨first, ⟨rfl, hfirst⟩, others, ⟨rfl, hothers⟩, rfl⟩
      refine ⟨rfl, fun size hsize => ?_⟩
      rcases List.mem_cons.1 hsize with rfl | hsize
      · exact hfirst
      · exact hothers size hsize
    · rintro ⟨rfl, hall⟩
      exact ⟨_, ⟨rfl, hall _ (by simp)⟩, _, ⟨rfl, fun size hsize => hall size (by simp [hsize])⟩, rfl⟩

/-- Registers compute the room for a function's blocks exactly if it is in their range. -/
theorem Function.footprint?_eq_some_iff {f : Function} {alignment n : Nat} (h : 0 < alignment) :
    f.footprint? alignment = some n ↔ n = f.footprint alignment ∧ n < Size.bound := by
  rw [Function.footprint?, Option.bind_eq_bind, Option.bind_eq_some_iff]
  constructor
  · rintro ⟨sizes, hsizes, htotal⟩
    obtain ⟨rfl, -⟩ := (mapM_slotSize?_eq_some_iff h).1 hsizes
    exact Size.total?_eq_some_iff.1 htotal
  · rintro ⟨rfl, hfits⟩
    refine ⟨_, (mapM_slotSize?_eq_some_iff h).2 ⟨rfl, fun size hsize => ?_⟩, Size.total?_eq_some_iff.2 ⟨rfl, hfits⟩⟩
    exact Nat.lt_of_le_of_lt (Size.le_total_of_mem hsize) hfits

theorem Function.footprint_le (f : Function) {alignment : Nat} (h : 0 < alignment) :
    f.footprint alignment ≤ Size.total (f.staticData.map (·.data.size)) + f.staticData.length * alignment := by
  unfold Function.footprint
  induction f.staticData with
  | nil => simp
  | cons block blocks ih =>
    have hslot := block.slotSize_le h
    simp only [List.map_cons, Size.total_cons, List.length_cons, Nat.add_mul, Nat.one_mul]
    omega

/-! ### Loading -/

/-- What a call takes off has been added up before, so it fits whenever the loader's account does. -/
private theorem mapM_footprint?_displaced {loader : Loader} (h : loader.Consistent)
    (hfits : loader.staticDataSize < Size.bound) (name : String) :
    ((loader.registry.find? name).mapM fun g => g.footprint? loader.config.staticDataAlignment.toNat) =
      some ((loader.registry.find? name).map loader.footprint) := by
  cases hfound : loader.registry.find? name with
  | none => rfl
  | some g =>
    have hg : g.footprint? loader.config.staticDataAlignment.toNat = some (loader.footprint g) :=
      (Function.footprint?_eq_some_iff h.alignment_pos).2
        ⟨rfl, Nat.lt_of_le_of_lt (h.footprint_le hfound) hfits⟩
    show (g.footprint? loader.config.staticDataAlignment.toNat).map some = _
    rw [hg]
    rfl

/-- Loading in registers is loading, as long as the account fits them. -/
theorem Loader.Consistent.load?_eq {loader : Loader} (h : loader.Consistent) {f : Function} (hf : f.loadError? = none) :
    loader.load? f =
      if loader.staticDataSize + loader.footprint f < Size.bound then some (loader.load f) else none := by
  have hfootprint : ∀ n, f.footprint? loader.config.staticDataAlignment.toNat = some n ↔
      n = loader.footprint f ∧ n < Size.bound := fun n => Function.footprint?_eq_some_iff h.alignment_pos
  unfold Loader.load?
  rw [hf]
  dsimp only
  -- either sum bounds all that goes into it, so only the last one has to be looked at
  split
  · rename_i hfits
    have hcomputed := (hfootprint _).2 ⟨rfl, by omega⟩
    have hgrown := Size.add?_eq_some_iff.2 ⟨rfl, hfits⟩
    have hfreed := mapM_footprint?_displaced h (by omega) f.name
    simp only [Option.bind_eq_bind, hcomputed, hgrown, hfreed, Option.bind_some, Loader.load, hf]
    rfl
  · rename_i hunfit
    cases hcomputed : f.footprint? loader.config.staticDataAlignment.toNat with
    | none => rfl
    | some n =>
      obtain ⟨rfl, -⟩ := (hfootprint n).1 hcomputed
      have hnone : Size.add? loader.staticDataSize (loader.footprint f) = none := if_neg hunfit
      rw [Option.bind_eq_bind, Option.bind_some, hnone]
      rfl

theorem Loader.load?_of_refused {loader : Loader} {f : Function} {e : CodeError} (hf : f.loadError? = some e) :
    loader.load? f = some (loader.load f) := by
  unfold Loader.load? Loader.load
  rw [hf]

theorem Loader.Consistent.eq_load_of_load? {loader : Loader} (h : loader.Consistent) {f : Function}
    {outcome : Except MachineError (Option Function) × Loader} (hload : loader.load? f = some outcome) :
    outcome = loader.load f := by
  cases hf : f.loadError? with
  | some e =>
    rw [Loader.load?_of_refused hf] at hload
    exact (Option.some.inj hload).symm
  | none =>
    rw [h.load?_eq hf] at hload
    split at hload
    · exact (Option.some.inj hload).symm
    · cases hload

/-- An image is refused just for its size. -/
theorem Loader.Consistent.link_eq_error_iff {loader : Loader} (h : loader.Consistent)
    (halignment : 0 < loader.config.dataSegmentAlignment.toNat) (error : MachineError) :
    loader.link = .error error ↔
      error = .invalidConfig (.imageTooLarge loader.staticDataSize) ∧
        maxWord < roundUp loader.staticDataSize loader.config.dataSegmentAlignment.toNat +
          loader.config.stackSize.toNat + loader.config.heapSize.toNat := by
  rw [h.link_eq]
  cases hsize : loader.config.imageSize loader.staticDataSize with
  | ok total =>
    obtain ⟨-, hle, htotal⟩ := Config.imageSize_eq_ok_iff.1 hsize
    refine iff_of_false (by simp) ?_
    rintro ⟨-, hlt⟩
    omega
  | error flaw =>
    have hlarge : maxWord < roundUp loader.staticDataSize loader.config.dataSegmentAlignment.toNat +
        loader.config.stackSize.toNat + loader.config.heapSize.toNat := by
      by_contra hnot
      rw [Config.imageSize_eq_ok_iff.2 ⟨halignment, Nat.le_of_not_lt hnot, rfl⟩] at hsize
      cases hsize
    rw [Config.eq_imageTooLarge_of_imageSize hsize, and_iff_left hlarge]
    constructor
    · intro herror
      cases herror
      rfl
    · rintro rfl
      rfl

/-- A session loads in registers what its loader loads there, with the same outcome. -/
theorem Session.load?_eq {loader : Loader} (h : loader.Consistent) (output : Array String) (f : Function) :
    Session.load? ⟨.loading loader, output⟩ f =
      (loader.load? f).map fun _ => Session.load ⟨.loading loader, output⟩ f := by
  unfold Session.load? Session.load
  dsimp only
  cases hload : loader.load? f with
  | none => rfl
  | some outcome =>
    rw [h.eq_load_of_load? hload]
    cases (loader.load f) with
    | mk answer next => cases answer <;> rfl

theorem Loader.Reached.validate_config {loader : Loader} (h : loader.Reached) : loader.config.validate = .ok () := by
  induction h with
  | @ofConfig config loader h =>
    unfold Loader.ofConfig at h
    split at h
    · rename_i hvalid
      cases h
      exact hvalid
    · cases h
  | @load loader _ f ih => rw [Loader.config_load, ih]

/-! ### What fits -/

/-- How the account of a loader for one more function fits registers. -/
structure Loader.FitsExactly (loader : Loader) (f : Function) : Prop where
  /-- The product for one block is in range, for every block that addresses of 63 bits can reach. -/
  product : ∀ block ∈ f.staticData, 2 * block.data.size < Size.bound →
    block.slotSize? loader.config.staticDataAlignment.toNat =
      some (block.slotSize loader.config.staticDataAlignment.toNat)
  /-- The sums are right, and they are made just if the last one is in range. -/
  sum : ∀ n, f.footprint? loader.config.staticDataAlignment.toNat = some n ↔
    n = loader.footprint f ∧ n < Size.bound
  /-- A call is broken off just if the account with the function leaves the range; otherwise it is the exact one. -/
  load : f.loadError? = none → loader.load? f =
    if loader.staticDataSize + loader.footprint f < Size.bound then some (loader.load f) else none
  /-- Then an image that is too large is refused for its size, and for nothing else. -/
  reported : ∀ answer next, loader.load? f = some (answer, next) → ∀ error, next.link = .error error ↔
    error = .invalidConfig (.imageTooLarge next.staticDataSize) ∧
      maxWord < roundUp next.staticDataSize next.config.dataSegmentAlignment.toNat + next.config.stackSize.toNat +
        next.config.heapSize.toNat
  /-- Half of the range for the bytes and half for the alignments is enough. -/
  bounded : 2 * Size.total (f.staticData.map (·.data.size)) < Size.bound →
    2 * (f.staticData.length * loader.config.staticDataAlignment.toNat) ≤ Size.bound →
    loader.footprint f < Size.bound
  session : ∀ output, Session.load? ⟨.loading loader, output⟩ f =
    (loader.load? f).map fun _ => Session.load ⟨.loading loader, output⟩ f

/-- Loading goes through in registers just if the exact account fits them. -/
theorem Loader.Reached.fitsExactly {loader : Loader} (h : loader.Reached) (f : Function) : loader.FitsExactly f := by
  have hconsistent := h.consistent
  have hpos := hconsistent.alignment_pos
  constructor
  case product =>
    intro block _ hsize
    exact (Block.slotSize?_eq_some_iff hpos).2
      ⟨rfl, block.slotSize_lt hpos loader.config.staticDataAlignment.toNat_lt hsize⟩
  case sum =>
    intro n
    exact Function.footprint?_eq_some_iff hpos
  case load =>
    intro hf
    exact hconsistent.load?_eq hf
  case reported =>
    intro answer next hload error
    have hnext : next = (loader.load f).2 := congrArg Prod.snd (hconsistent.eq_load_of_load? hload)
    subst hnext
    have hdata := Register.toNat_pos_iff.2 (Config.validate_eq_ok_iff.1 (h.load f).validate_config).1
    exact (hconsistent.load f).link_eq_error_iff hdata error
  case bounded =>
    intro hbytes halignments
    have hle := f.footprint_le hpos
    show f.footprint loader.config.staticDataAlignment.toNat < Size.bound
    omega
  case session => exact fun output => Session.load?_eq hconsistent output f

theorem Loader.Reached.fitsExactly_greeting :
    greeting.loadError? = none ∧ greetingLoader.load? greeting = some (greetingLoader.load greeting) := by
  have hload : greeting.loadError? = none := reached_greetingLoader.consistent.accepted _ greeting_mem_greetingLoader
  have hfits : greetingLoader.staticDataSize + greetingLoader.footprint greeting < Size.bound := by decide +kernel
  exact ⟨hload, ((reached_greetingLoader.fitsExactly greeting).load hload).trans (if_pos hfits)⟩

/-! ### What does not fit -/

/-- Accepted, since only the stack and the heap are bounded. -/
def wideAlignment : Config :=
  { staticDataAlignment := 9223372036854775808 }

/-- Two static blocks of one byte each, which are never loaded. -/
def twoByteBlocks : Function :=
  { name := "f", localOffsets := [], localSize := 0, code := encodeAll [.plain .ret]
    staticData := [⟨#[1], [], none⟩, ⟨#[2], [], none⟩] }

/-- Configuration and function are accepted, and the slots of the two blocks make up one more than a register holds; the
image would be refused for its size. -/
theorem load?_twoByteBlocks :
    wideAlignment.validate = .ok () ∧ twoByteBlocks.verify = .ok () ∧ twoByteBlocks.loadError? = none ∧
      twoByteBlocks.footprint wideAlignment.staticDataAlignment.toNat = Size.bound ∧
      ∃ loader, Loader.ofConfig wideAlignment = .ok loader ∧ loader.load? twoByteBlocks = none ∧
        (loader.load twoByteBlocks).2.link = .error (.invalidConfig (.imageTooLarge Size.bound)) := by
  have hload : twoByteBlocks.loadError? = none := by decide +kernel
  have hfootprint : twoByteBlocks.footprint wideAlignment.staticDataAlignment.toNat = Size.bound := by decide +kernel
  have hloader : Loader.ofConfig wideAlignment = .ok { config := wideAlignment } := rfl
  have hreached := Loader.Reached.ofConfig hloader
  have hnext := (hreached.load twoByteBlocks).consistent
  have hsize : (Loader.load { config := wideAlignment } twoByteBlocks).2.staticDataSize = Size.bound := by
    decide +kernel
  refine ⟨rfl, (Function.loadError?_eq_none_iff.1 hload).2, hload, hfootprint, _, hloader, ?_, ?_⟩
  · rw [hreached.consistent.load?_eq hload]
    exact if_neg (by rw [Loader.footprint, hfootprint]; exact Nat.lt_irrefl _)
  · rw [hnext.link_eq_error_iff (by rw [Loader.config_load]; decide), hsize, Loader.config_load]
    exact ⟨rfl, by decide +kernel⟩

end StackMachine
