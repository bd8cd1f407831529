import StackMachine.Proofs.Function.Verified

/-!
# Exactly what verification accepts and reports

* (frame) The table of local offsets has no flaw exactly if it describes a frame: `frameFlaw?_eq_none_iff`.
* (acceptance) A function is accepted exactly if it is `Acceptable` as some sequence of instructions, which is said without
  the checks.
* (reports) Where the frame and the code are in order, the error tells the first offence in the code, or else the first
  recorded load that is none: `exists_firstOffence` and `exists_firstDangling`.
-/

namespace StackMachine

/-- The offsets of locals describe a frame of the given size. -/
structure DescribesFrame (offsets : List UInt32) (size : UInt32) : Prop where
  count : offsets.length ≤ maxLocals
  first : ∀ first, offsets.head? = some first → first = 0
  sorted : offsets.Pairwise (· ≤ ·)
  last : ∀ last, offsets.getLast? = some last → last ≤ size
  empty : offsets = [] → size = 0

/-- A branch may lead to the start of each instruction and to the end of the code. -/
def Function.Lands (f : Function) (is : List Instruction) (target : Word) : Prop :=
  0 ≤ target.toInt ∧ ((∃ k, k < is.length ∧ target.toInt = offsetAt is k) ∨ target.toInt = f.code.size)

/-- A function that deserves to be accepted, with the instructions of its code. -/
structure Function.Acceptable (f : Function) (is : List Instruction) : Prop where
  frame : DescribesFrame f.localOffsets f.localSize
  wellFormed : WellFormedSequence is
  code_eq : f.code = encodeAll is
  branches : ∀ i ∈ is, ∀ target, i.operand = .codeAddress target → f.Lands is target
  locals : ∀ i ∈ is, ∀ index, i.operand = .localIndex index → index.toNat < f.localOffsets.length
  loads : ∀ block ∈ f.staticData, ∀ offset ∈ block.loadOffsets, HasLoadAt is offset.toNat

/-- What is wrong with an instruction at the given offset. -/
inductive Function.Offence (f : Function) (is : List Instruction) (offset : Nat) (i : Instruction) : CodeError → Prop where
  | branch {target : Word} : i.operand = .codeAddress target → ¬ f.Lands is target →
    Offence f is offset i (.invalidBranchTarget offset target)
  | missing {index : UInt8} : i.operand = .localIndex index → f.localOffsets.length ≤ index.toNat →
    Offence f is offset i (.localOutOfRange offset index f.localOffsets.length)

/-- Some instruction of the sequence offends. -/
def Function.HasOffence (f : Function) (is : List Instruction) : Prop :=
  ∃ k i e, is[k]? = some i ∧ f.Offence is (offsetAt is k) i e

/-- The error tells an offence, and no instruction with a lower offset offends. -/
def Function.FirstOffence (f : Function) (is : List Instruction) (e : CodeError) : Prop :=
  ∃ k i, is[k]? = some i ∧ f.Offence is (offsetAt is k) i e ∧
    ∀ j i' e', is[j]? = some i' → f.Offence is (offsetAt is j) i' e' → offsetAt is k ≤ offsetAt is j

/-- The error tells a recorded load that is none: the first one of the first block that records such a load. -/
def Function.FirstDangling (f : Function) (is : List Instruction) (e : CodeError) : Prop :=
  ∃ (number : Nat) (block : Block) (position : Nat) (offset : UInt64),
    f.staticData[number]? = some block ∧ block.loadOffsets[position]? = some offset ∧
    ¬ HasLoadAt is offset.toNat ∧ e = .danglingStaticLoad number offset.toNat ∧
    (∀ (earlier : Nat) (other : UInt64), earlier < position → block.loadOffsets[earlier]? = some other →
      HasLoadAt is other.toNat) ∧
    ∀ (earlier : Nat) (block' : Block), earlier < number → f.staticData[earlier]? = some block' →
      ∀ other ∈ block'.loadOffsets, HasLoadAt is other.toNat

/-! ### The frame -/

theorem firstDecrease?_eq_none_iff {offsets : List UInt32} :
    firstDecrease? offsets = none ↔ offsets.Pairwise (· ≤ ·) := by
  fun_induction firstDecrease? offsets with
  | case1 a b rest hlt =>
    refine iff_of_false (by simp) fun h => ?_
    have hle := (List.pairwise_cons.1 h).1 b (by simp)
    exact UInt32.not_lt.2 hle hlt
  | case2 a b rest hge ih =>
    rw [ih]
    constructor
    · intro h
      have hab : a ≤ b := UInt32.not_lt.1 hge
      refine List.pairwise_cons.2 ⟨fun c hc => ?_, h⟩
      rcases List.mem_cons.1 hc with rfl | hc
      · exact hab
      · exact UInt32.le_trans hab ((List.pairwise_cons.1 h).1 c hc)
    · intro h
      exact (List.pairwise_cons.1 h).2
  | case3 l hshort =>
    refine iff_of_true rfl ?_
    match l, hshort with
    | [], _ => exact .nil
    | [a], _ => exact List.pairwise_singleton _ _
    | a :: b :: rest, hshort => exact absurd rfl (hshort a b rest)

theorem frameFlaw?_eq_none_iff {offsets : List UInt32} {size : UInt32} :
    frameFlaw? offsets size = none ↔ DescribesFrame offsets size := by
  have hhead : offsets.headD 0 = 0 ↔ ∀ first, offsets.head? = some first → first = 0 := by
    cases offsets <;> simp
  have hempty : offsets.getLast? = none ↔ offsets = [] := List.getLast?_eq_none_iff
  unfold frameFlaw?
  constructor
  · intro h
    split at h
    · cases h
    · rename_i hcount
      split at h
      · cases h
      · rename_i hfirst
        split at h
        · cases h
        · rename_i hsorted
          refine ⟨Nat.le_of_not_lt hcount, hhead.1 (Decidable.not_not.1 hfirst), firstDecrease?_eq_none_iff.1 hsorted, ?_, ?_⟩
          · intro last hlast
            rw [hlast] at h
            simpa using h
          · intro hnil
            rw [hempty.2 hnil] at h
            simpa using h
  · rintro ⟨hcount, hfirst, hsorted, hlast, hnil⟩
    rw [if_neg (Nat.not_lt.2 hcount), if_neg (not_not_intro (hhead.2 hfirst)), firstDecrease?_eq_none_iff.2 hsorted]
    dsimp only
    split
    · rename_i last heq
      exact if_neg (UInt32.not_lt.2 (hlast last heq))
    · rename_i heq
      exact if_neg (not_not_intro (hnil (hempty.1 heq)))

/-! ### Acceptance -/

theorem Function.lands_iff {f : Function} {is : List Instruction} (hwf : WellFormedSequence is)
    (hcode : f.code = encodeAll is) {target : Word} :
    f.Lands is target ↔ ∃ j, j ≤ is.length ∧ target.toInt = offsetAt is j := by
  have hend : (f.code.size : Int) = offsetAt is is.length := by
    rw [hcode, size_encodeAll hwf, offsetAt_of_length_le (Nat.le_refl _)]
  unfold Function.Lands
  constructor
  · rintro ⟨-, ⟨k, hk, htarget⟩ | htarget⟩
    · exact ⟨k, by omega, htarget⟩
    · exact ⟨is.length, Nat.le_refl _, by omega⟩
  · rintro ⟨j, hj, htarget⟩
    refine ⟨by omega, ?_⟩
    rcases Nat.lt_or_eq_of_le hj with hlt | rfl
    · exact .inl ⟨j, hlt, htarget⟩
    · exact .inr (by omega)

theorem Function.acceptable_iff_verifiedBy {f : Function} {is : List Instruction} :
    f.Acceptable is ↔ f.VerifiedBy is := by
  constructor
  · rintro ⟨hframe, hwf, hcode, hbranches, hlocals, hloads⟩
    refine ⟨hwf, hcode, frameFlaw?_eq_none_iff.2 hframe, ?_, hlocals, hloads⟩
    intro i hi target htarget
    exact (Function.lands_iff hwf hcode).1 (hbranches i hi target htarget)
  · rintro ⟨hwf, hcode, hframe, hbranches, hlocals, hloads⟩
    refine ⟨frameFlaw?_eq_none_iff.1 hframe, hwf, hcode, ?_, hlocals, hloads⟩
    intro i hi target htarget
    exact (Function.lands_iff hwf hcode).2 (hbranches i hi target htarget)

/-! ### Reports -/

/-- What a search finds first, with its position. -/
private theorem exists_first_of_findSome? {α β : Type} {g : α → Option β} {l : List α} {b : β}
    (h : l.findSome? g = some b) :
    ∃ (k : Nat) (a : α), l[k]? = some a ∧ g a = some b ∧
      ∀ (j : Nat) (a' : α), j < k → l[j]? = some a' → g a' = none := by
  obtain ⟨before, a, after, rfl, ha, hbefore⟩ := List.findSome?_eq_some_iff.1 h
  refine ⟨before.length, a, by simp, ha, ?_⟩
  intro j a' hj ha'
  rw [List.getElem?_append_left hj] at ha'
  exact hbefore a' (List.mem_of_getElem? ha')

theorem findSome?_flatMap {α β γ : Type} (l : List α) (parts : α → List β) (g : β → Option γ) :
    (l.flatMap parts).findSome? g = l.findSome? fun a => (parts a).findSome? g := by
  induction l with
  | nil => rfl
  | cons a l ih =>
    rw [List.flatMap_cons, List.findSome?_append, ih, List.findSome?_cons]
    cases (parts a).findSome? g <;> rfl

theorem Function.instructionFault?_eq_some_iff {f : Function} {is : List Instruction} (hwf : WellFormedSequence is)
    (hcode : f.code = encodeAll is) {offset : Nat} {i : Instruction} {e : CodeError} :
    f.instructionFault? (withOffsets 0 is) offset i = some e ↔ f.Offence is offset i e := by
  have hlands : ∀ target : Word,
      isBranchTarget f.code (withOffsets 0 is) target.toInt = true ↔ f.Lands is target := by
    intro target
    rw [isBranchTarget_iff hwf hcode, Function.lands_iff hwf hcode]
  unfold Function.instructionFault?
  constructor
  · intro h
    split at h
    · rename_i target htarget
      split at h
      · cases h
      · rename_i hastray
        cases h
        exact .branch htarget fun hland => hastray ((hlands target).2 hland)
    · rename_i index hindex
      split at h
      · cases h
      · rename_i hmissing
        cases h
        exact .missing hindex (Nat.le_of_not_lt hmissing)
    · cases h
  · intro h
    cases h with
    | branch htarget hastray =>
      rw [htarget]
      exact if_neg fun hland => hastray ((hlands _).1 hland)
    | missing hindex hmissing =>
      rw [hindex]
      exact if_neg (Nat.not_lt.2 hmissing)

/-- What a search through the recorded loads finds first, with its block and its place in it. -/
theorem Function.exists_first_of_loadSites {f : Function} {β : Type} {g : Nat → Nat → Option β} {b : β}
    (h : (f.loadSites.findSome? fun site => g site.1 site.2) = some b) :
    ∃ (number : Nat) (block : Block) (position : Nat) (offset : UInt64), f.staticData[number]? = some block ∧
      block.loadOffsets[position]? = some offset ∧ g number offset.toNat = some b ∧
      (∀ (earlier : Nat) (other : UInt64), earlier < position → block.loadOffsets[earlier]? = some other →
        g number other.toNat = none) ∧
      ∀ (earlier : Nat) (block' : Block), earlier < number → f.staticData[earlier]? = some block' →
        ∀ other ∈ block'.loadOffsets, g earlier other.toNat = none := by
  rw [Function.loadSites, findSome?_flatMap] at h
  obtain ⟨number, ⟨block, n⟩, hn, hfound, hblocks⟩ := exists_first_of_findSome? h
  rw [List.getElem?_zipIdx, Option.map_eq_some_iff] at hn
  obtain ⟨block, hnumber, heq⟩ := hn
  cases heq
  rw [List.findSome?_map] at hfound
  obtain ⟨position, offset, hposition, hoffset, hloads⟩ := exists_first_of_findSome? hfound
  rw [Function.comp_apply, Nat.zero_add] at hoffset
  refine ⟨number, block, position, offset, hnumber, hposition, hoffset, ?_, ?_⟩
  · intro earlier other hlt hother
    have hnone := hloads earlier other hlt hother
    rwa [Function.comp_apply, Nat.zero_add] at hnone
  · intro earlier block' hlt hblock' other hother
    have hclean := hblocks earlier (block', earlier) hlt (by rw [List.getElem?_zipIdx, hblock']; simp)
    rw [List.findSome?_map] at hclean
    exact List.findSome?_eq_none_iff.1 hclean other hother

theorem danglingStaticLoad_of_loadFault? {is : List Instruction} {block offset : Nat} {e : CodeError}
    (h : loadFault? (withOffsets 0 is) block offset = some e) :
    ¬ HasLoadAt is offset ∧ e = .danglingStaticLoad block offset := by
  refine ⟨fun hload => ?_, ?_⟩
  · rw [loadFault?_eq_none_iff.2 hload] at h
    cases h
  · unfold loadFault? at h
    split at h
    · split at h
      · cases h
      · cases h
        rfl
    · cases h
      rfl

section
variable {f : Function} {is : List Instruction} (hwf : WellFormedSequence is) (hcode : f.code = encodeAll is)
include hwf hcode

theorem Function.firstOffence_of_findSome? {e : CodeError}
    (h : ((withOffsets 0 is).findSome? fun entry => f.instructionFault? (withOffsets 0 is) entry.1 entry.2) = some e) :
    f.FirstOffence is e := by
  obtain ⟨k, ⟨offset, i⟩, hk, hfault, hbefore⟩ := exists_first_of_findSome? h
  rw [getElem?_withOffsets, Option.map_eq_some_iff] at hk
  obtain ⟨i, hi, heq⟩ := hk
  cases heq
  rw [Nat.zero_add, Function.instructionFault?_eq_some_iff hwf hcode] at hfault
  refine ⟨k, i, hi, hfault, ?_⟩
  intro j i' e' hj hoffence
  -- an offence before position `k` would have been found first
  rcases Nat.lt_or_ge j k with hlt | hge
  · have hnone := hbefore j (offsetAt is j, i') hlt (by rw [getElem?_withOffsets, hj]; simp)
    rw [(Function.instructionFault?_eq_some_iff hwf hcode).2 hoffence] at hnone
    cases hnone
  · exact offsetAt_mono hge

theorem Function.findSome?_eq_none_iff :
    ((withOffsets 0 is).findSome? fun entry => f.instructionFault? (withOffsets 0 is) entry.1 entry.2) = none ↔
      ¬ f.HasOffence is := by
  rw [List.findSome?_eq_none_iff]
  constructor
  · rintro h ⟨k, i, e, hk, hoffence⟩
    have hnone := h _ (mem_withOffsets.2 ⟨k, hk, rfl⟩)
    rw [Nat.zero_add, (Function.instructionFault?_eq_some_iff hwf hcode).2 hoffence] at hnone
    cases hnone
  · rintro h ⟨offset, i⟩ hmem
    obtain ⟨k, hk, rfl⟩ := mem_withOffsets.1 hmem
    cases hfault : f.instructionFault? (withOffsets 0 is) (0 + offsetAt is k) i with
    | none => rfl
    | some e =>
      rw [Nat.zero_add, Function.instructionFault?_eq_some_iff hwf hcode] at hfault
      exact absurd ⟨k, i, e, hk, hfault⟩ h

theorem Function.exists_firstOffence (hframe : frameFlaw? f.localOffsets f.localSize = none)
    (h : f.HasOffence is) : ∃ e, f.verify = .error e ∧ f.FirstOffence is e := by
  cases hfind : (withOffsets 0 is).findSome? fun entry => f.instructionFault? (withOffsets 0 is) entry.1 entry.2 with
  | none => exact absurd h ((Function.findSome?_eq_none_iff hwf hcode).1 hfind)
  | some e =>
    refine ⟨e, ?_, Function.firstOffence_of_findSome? hwf hcode hfind⟩
    rw [Function.verify_of_code hwf hcode hframe, Function.fault?, hfind]
    rfl

theorem Function.exists_firstDangling (hframe : frameFlaw? f.localOffsets f.localSize = none)
    (hfine : ¬ f.HasOffence is) {block : Block} (hblock : block ∈ f.staticData) {offset : UInt64}
    (hoffset : offset ∈ block.loadOffsets) (hbad : ¬ HasLoadAt is offset.toNat) :
    ∃ e, f.verify = .error e ∧ f.FirstDangling is e := by
  have hnone := (Function.findSome?_eq_none_iff hwf hcode).2 hfine
  cases hfind : f.loadSites.findSome? fun site => loadFault? (withOffsets 0 is) site.1 site.2 with
  | none =>
    obtain ⟨number, hnumber⟩ := List.mem_iff_getElem?.1 hblock
    have hgood := List.findSome?_eq_none_iff.1 hfind (number, offset.toNat)
      (Function.mem_loadSites.2 ⟨block, hnumber, offset, hoffset, rfl⟩)
    exact absurd (loadFault?_eq_none_iff.1 hgood) hbad
  | some e =>
    refine ⟨e, ?_, ?_⟩
    · rw [Function.verify_of_code hwf hcode hframe, Function.fault?, hnone, hfind]
      rfl
    · obtain ⟨number, found, position, recorded, hnumber, hposition, hfault, hloads, hblocks⟩ :=
        Function.exists_first_of_loadSites hfind
      obtain ⟨hdangling, rfl⟩ := danglingStaticLoad_of_loadFault? hfault
      refine ⟨number, found, position, recorded, hnumber, hposition, hdangling, rfl, ?_, ?_⟩
      · intro earlier other hlt hother
        exact loadFault?_eq_none_iff.1 (hloads earlier other hlt hother)
      · intro earlier block' hlt hblock' other hother
        exact loadFault?_eq_none_iff.1 (hblocks earlier block' hlt hblock' other hother)

/-- If only instructions can be at fault, then the error tells the first offence. -/
theorem Function.firstOffence_of_verify (hframe : frameFlaw? f.localOffsets f.localSize = none)
    (hloads : ∀ block ∈ f.staticData, ∀ offset ∈ block.loadOffsets, HasLoadAt is offset.toNat) {e : CodeError}
    (h : f.verify = .error e) : f.FirstOffence is e := by
  by_cases hoffence : f.HasOffence is
  · obtain ⟨e', he', hfirst⟩ := Function.exists_firstOffence hwf hcode hframe hoffence
    rw [h] at he'
    cases he'
    exact hfirst
  · have hinstructions := (Function.findSome?_eq_none_iff hwf hcode).2 hoffence
    have hsites : (f.loadSites.findSome? fun site => loadFault? (withOffsets 0 is) site.1 site.2) = none := by
      rw [List.findSome?_eq_none_iff]
      intro site hsite
      obtain ⟨block, hblock, offset, hoffset, heq⟩ := Function.mem_loadSites.1 hsite
      rw [heq, loadFault?_eq_none_iff]
      exact hloads block (List.mem_of_getElem? hblock) offset hoffset
    rw [Function.verify_of_code hwf hcode hframe, Function.fault?, hinstructions, hsites] at h
    cases h

end

/-- A function is accepted exactly if it is acceptable as some sequence.  Where its frame and its code are in order, the
error tells the first offence, or, if there is none, the first recorded load that is no load. -/
theorem Function.verify_exact (f : Function) :
    (f.verify = .ok () ↔ ∃ is, f.Acceptable is) ∧
    ∀ is, DescribesFrame f.localOffsets f.localSize → WellFormedSequence is → f.code = encodeAll is →
      (f.HasOffence is → ∃ e, f.verify = .error e ∧ f.FirstOffence is e) ∧
      (¬ f.HasOffence is → (∃ block ∈ f.staticData, ∃ offset ∈ block.loadOffsets, ¬ HasLoadAt is offset.toNat) →
        ∃ e, f.verify = .error e ∧ f.FirstDangling is e) := by
  refine ⟨?_, fun is hframe hwf hcode => ⟨fun hoffence => ?_, ?_⟩⟩
  · simp only [Function.verify_eq_ok_iff, Function.acceptable_iff_verifiedBy]
  · exact Function.exists_firstOffence hwf hcode (frameFlaw?_eq_none_iff.2 hframe) hoffence
  · rintro hfine ⟨block, hblock, offset, hoffset, hbad⟩
    exact Function.exists_firstDangling hwf hcode (frameFlaw?_eq_none_iff.2 hframe) hfine hblock hoffset hbad

/-- A local, a branch and a load, at 0, 2 and 7; the code ends at 12. -/
def detourCode (target : Word) : List Instruction :=
  [⟨.loadLocalAddress, .localIndex 1⟩, ⟨.branch, .codeAddress target⟩, ⟨.loadStaticAddress, .dataAddress 0⟩]

/-- Its second block records what is no load, and the branch leads where it is told to. -/
def detour (offsets : List UInt32) (target : Word) : Function :=
  { name := "detour", localOffsets := offsets, localSize := 4, code := encodeAll (detourCode target),
    staticData := [⟨#[], [7], none⟩, ⟨#[], [7, 2, 9], none⟩] }

/-- Of the missing local at 0 and the stray branch at 2 the first is reported; with both mended, what the second block
records at 2. -/
theorem Function.verify_exact_detour :
    ((detour [0] 8).HasOffence (detourCode 8) ∧
      (detour [0] 8).FirstOffence (detourCode 8) (.localOutOfRange 0 1 1)) ∧
    (¬ (detour [0, 4] 12).HasOffence (detourCode 12) ∧
      (detour [0, 4] 12).FirstDangling (detourCode 12) (.danglingStaticLoad 1 2)) := by
  have hwf : ∀ target, WellFormedSequence (detourCode target) := by
    intro target
    simp [WellFormedSequence, detourCode, Instruction.WellFormed, Operand.kind, Opcode.operandKind]
  have hoffence : (detour [0] 8).HasOffence (detourCode 8) := ⟨0, _, _, rfl, .missing rfl (by decide)⟩
  have hfine : ¬ (detour [0, 4] 12).HasOffence (detourCode 12) :=
    (Function.findSome?_eq_none_iff (hwf 12) rfl).1 (by decide)
  have hbad : ¬ HasLoadAt (detourCode 12) 2 := fun hload => by
    have hnone : loadFault? (withOffsets 0 (detourCode 12)) 1 2 = none := loadFault?_eq_none_iff.2 hload
    revert hnone
    decide
  refine ⟨⟨hoffence, ?_⟩, hfine, ?_⟩
  · have hframe : DescribesFrame [0] 4 := frameFlaw?_eq_none_iff.1 (by decide)
    obtain ⟨e, he, hfirst⟩ := ((Function.verify_exact (detour [0] 8)).2 _ hframe (hwf 8) rfl).1 hoffence
    have hverify : (detour [0] 8).verify = .error (.localOutOfRange 0 1 1) :=
      Function.verify_of_code (hwf 8) rfl (by decide)
    cases hverify.symm.trans he
    exact hfirst
  · have hframe : DescribesFrame [0, 4] 4 := frameFlaw?_eq_none_iff.1 (by decide)
    obtain ⟨e, he, hfirst⟩ := ((Function.verify_exact (detour [0, 4] 12)).2 _ hframe (hwf 12) rfl).2 hfine
      ⟨⟨#[], [7, 2, 9], none⟩, by simp [detour], 2, by simp, hbad⟩
    have hverify : (detour [0, 4] 12).verify = .error (.danglingStaticLoad 1 2) :=
      Function.verify_of_code (hwf 12) rfl (by decide)
    cases hverify.symm.trans he
    exact hfirst

end StackMachine
