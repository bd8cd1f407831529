import StackMachine.Proofs.Function.Exactness
import StackMachine.Proofs.Function.Relocated

/-!
# Relocation in place

Relocation can also be carried out on a function that changes under way: two loops over the static blocks, the first of
which checks every recorded load and the second of which writes the addresses (`relocateInPlace`).  An error then shows how
far the function had been changed when it occurred.  Only the first loop meets errors, and it changes nothing; behind it
there is room for every write.  So the outcome is that of `Function.relocate`, with the function as it was beside every error
(`relocateInPlace_eq`).

Recorded loads of a function that was never checked may overlap.  Each byte then is the one that the last write reaching
it has left there (`getElem?_foldl_writeAddress`).
-/

namespace StackMachine

/-- Steps of relocation, on a function that changes in place. -/
abbrev Relocating := EStateM CodeError Function

/-- Refuses a recorded load whose operand would not lie inside the code. -/
def checkLoad (number : Nat) (offset : UInt64) : Relocating Unit := fun f =>
  if f.code.size < offset.toNat + Opcode.loadStaticAddress.encodedLength then
    .error (.danglingStaticLoad number offset.toNat) f
  else .ok () f

/-- Writes an address behind the opcode at an offset, if there is room for it. -/
def writeLoad (address : Word) (offset : UInt64) : Relocating Unit :=
  modify fun f => { f with code := (f.code.writeWord? (offset.toNat + 1) address).getD f.code }

def checkLoads (blocks : List Block) : Relocating Unit :=
  blocks.zipIdx.forM fun (block, number) => block.loadOffsets.forM (checkLoad number)

def writeLoads (blocks : List Block) (addresses : List Word) : Relocating Unit :=
  (blocks.zip addresses).forM fun (block, address) => block.loadOffsets.forM (writeLoad address)

/-- Writes the address of each static block into the code. -/
def relocateInPlace (addresses : List Word) : Relocating Unit := do
  let f ← get
  if f.patched then throw (.alreadyPatched f.name)
  if addresses.length ≠ f.staticData.length then
    throw (.patchCountMismatch f.name f.staticData.length addresses.length)
  checkLoads f.staticData
  writeLoads f.staticData addresses
  modify fun f => { f with patched := true }

/-- The last write that reaches a byte of the code. -/
def Function.lastWrite? (f : Function) (addresses : List Word) (n : Nat) : Option (Nat × Word) :=
  (f.relocations addresses).reverse.find? fun relocation => relocation.1 + 1 ≤ n ∧ n < relocation.1 + 5

/-! ### Loops -/

section

variable {α : Type}

/-- A loop of checks stops at the first that fails, and changes nothing. -/
private theorem forM_of_checks {action : α → Relocating Unit} {fault? : α → Option CodeError} {f : Function}
    (h : ∀ a, action a f = match fault? a with | some e => .error e f | none => .ok () f) (l : List α) :
    l.forM action f = match l.findSome? fault? with | some e => .error e f | none => .ok () f := by
  induction l with
  | nil => rfl
  | cons a l ih =>
    show EStateM.bind (action a) (fun _ => l.forM action) f = _
    rw [EStateM.bind, h a, List.findSome?_cons]
    cases fault? a with
    | some e => rfl
    | none => exact ih

private theorem forM_of_steps {action : α → Relocating Unit} {step : Function → α → Function}
    (h : ∀ a f, action a f = .ok () (step f a)) (l : List α) (f : Function) :
    l.forM action f = .ok () (l.foldl step f) := by
  induction l generalizing f with
  | nil => rfl
  | cons a l ih =>
    show EStateM.bind (action a) (fun _ => l.forM action) f = _
    rw [EStateM.bind, h a f]
    exact ih (step f a)

end

/-! ### Writes -/

theorem writeWord?_of_le {code : Bytes} {relocation : Nat × Word} (h : relocation.1 + 5 ≤ code.size) :
    code.writeWord? (relocation.1 + 1) relocation.2 = some (writeAddress code relocation) := by
  exact Bytes.writeWord?_eq_some_iff.2 ⟨by unfold wordSize; omega, rfl⟩

@[simp] theorem size_writeAddress (code : Bytes) (relocation : Nat × Word) :
    (writeAddress code relocation).size = code.size := by
  simp [writeAddress]

theorem size_foldl_writeAddress (relocations : List (Nat × Word)) (code : Bytes) :
    (relocations.foldl writeAddress code).size = code.size := by
  induction relocations generalizing code with
  | nil => rfl
  | cons relocation relocations ih => rw [List.foldl_cons, ih, size_writeAddress]

/-- Where there is room for all addresses, every write succeeds. -/
theorem foldlM_writeWord? {relocations : List (Nat × Word)} {code : Bytes}
    (h : ∀ relocation ∈ relocations, relocation.1 + 5 ≤ code.size) :
    relocations.foldlM (fun code relocation => code.writeWord? (relocation.1 + 1) relocation.2) code =
      some (relocations.foldl writeAddress code) := by
  induction relocations generalizing code with
  | nil => rfl
  | cons relocation relocations ih =>
    have hrest : ∀ other ∈ relocations, other.1 + 5 ≤ (writeAddress code relocation).size := by
      intro other hother
      rw [size_writeAddress]
      exact h other (by simp [hother])
    rw [List.foldlM_cons, writeWord?_of_le (h relocation (by simp)), List.foldl_cons, ← ih hrest]
    rfl

private theorem foldl_of_foldlM {α β : Type} {step : β → α → Option β} {l : List α} {b c : β} (h : l.foldlM step b = some c) :
    l.foldl (fun b a => (step b a).getD b) b = c := by
  induction l generalizing b with
  | nil => simpa using h
  | cons a l ih =>
    rw [List.foldlM_cons] at h
    obtain ⟨next, hnext, hrest⟩ := Option.bind_eq_some_iff.1 h
    rw [List.foldl_cons, hnext]
    exact ih hrest

/-- A byte of the code after all writes is that of the last write that reaches it. -/
theorem getElem?_foldl_writeAddress {relocations : List (Nat × Word)} {code : Bytes}
    (h : ∀ relocation ∈ relocations, relocation.1 + 5 ≤ code.size) (n : Nat) :
    (relocations.foldl writeAddress code)[n]? =
      match relocations.reverse.find? fun relocation => relocation.1 + 1 ≤ n ∧ n < relocation.1 + 5 with
      | some (offset, address) => (Word.toBytes address)[n - (offset + 1)]?
      | none => code[n]? := by
  -- the last write is looked at first, so the induction takes writes off the end
  induction relocations using List.reverseRecOn with
  | nil => rfl
  | append_singleton relocations relocation ih =>
    obtain ⟨offset, address⟩ := relocation
    have hfit : offset + 5 ≤ code.size := h (offset, address) (by simp)
    rw [List.foldl_append, List.foldl_cons, List.foldl_nil, writeAddress, Bytes.getElem?_overwrite,
      size_foldl_writeAddress, Word.length_toBytes, List.reverse_append, List.reverse_singleton, List.singleton_append,
      List.find?_cons]
    by_cases hreach : offset + 1 ≤ n ∧ n < offset + 5
    · rw [if_pos (by unfold wordSize; omega), decide_eq_true hreach]
    · rw [if_neg (by unfold wordSize; omega), decide_eq_false hreach]
      exact ih fun other hother => h other (by simp [hother])

/-! ### The procedure -/

section

variable (f : Function) (addresses : List Word)

/-- What is wrong with a recorded load. -/
def Function.siteError? (number offset : Nat) : Option CodeError :=
  if f.code.size < offset + 5 then some (.danglingStaticLoad number offset) else none

theorem Function.findSome?_siteError? :
    (f.loadSites.findSome? fun site => f.siteError? site.1 site.2) =
      f.danglingLoad?.map fun site => .danglingStaticLoad site.1 site.2 := by
  rw [Function.danglingLoad?, ← List.findSome?_guard, List.map_findSome?]
  congr 1
  funext site
  have hlength : Opcode.loadStaticAddress.encodedLength = 5 := rfl
  by_cases hsize : f.code.size < site.2 + 5 <;> simp [Function.siteError?, Option.guard, hlength, hsize]

theorem checkLoads_apply :
    checkLoads f.staticData f =
      match f.loadSites.findSome? fun site => f.siteError? site.1 site.2 with
      | some e => .error e f
      | none => .ok () f := by
  have hblock : ∀ entry : Block × Nat, entry.1.loadOffsets.forM (checkLoad entry.2) f =
      match entry.1.loadOffsets.findSome? fun offset => f.siteError? entry.2 offset.toNat with
      | some e => .error e f
      | none => .ok () f := by
    intro entry
    refine forM_of_checks (fun offset => ?_) _
    have hlength : Opcode.loadStaticAddress.encodedLength = 5 := rfl
    by_cases hsize : f.code.size < offset.toNat + 5 <;> simp [checkLoad, Function.siteError?, hlength, hsize]
  rw [checkLoads, forM_of_checks hblock, Function.loadSites, findSome?_flatMap]
  simp only [List.findSome?_map, Function.comp_def]

theorem writeLoads_apply :
    writeLoads f.staticData addresses f =
      .ok () { f with
        code := (f.relocations addresses).foldl
          (fun code relocation => (code.writeWord? (relocation.1 + 1) relocation.2).getD code) f.code } := by
  have hblock : ∀ (entry : Block × Word) (g : Function), entry.1.loadOffsets.forM (writeLoad entry.2) g =
      .ok () (entry.1.loadOffsets.foldl (fun g offset =>
        { g with code := (g.code.writeWord? (offset.toNat + 1) entry.2).getD g.code }) g) :=
    fun entry g => forM_of_steps (fun offset g => rfl) _ g
  rw [writeLoads, forM_of_steps hblock, Function.relocations]
  simp only [List.foldl_flatMap, List.foldl_map]
  -- both loops change nothing but the code
  have hcode : ∀ (code : Bytes) (entry : Block × Word),
      entry.1.loadOffsets.foldl (fun (g : Function) offset =>
        { g with code := (g.code.writeWord? (offset.toNat + 1) entry.2).getD g.code }) { f with code := code } =
      { f with
        code := entry.1.loadOffsets.foldl
          (fun code offset => (code.writeWord? (offset.toNat + 1) entry.2).getD code) code } :=
    fun code entry => List.foldl_hom (fun code => { f with code := code }) fun _ _ => rfl
  exact congrArg _ (List.foldl_hom (fun code => { f with code := code }) hcode)

theorem Function.le_size_of_mem_relocations (h : f.danglingLoad? = none) :
    ∀ relocation ∈ f.relocations addresses, relocation.1 + 5 ≤ f.code.size := by
  rintro ⟨offset, address⟩ hmem
  obtain ⟨number, block, hblock, -, o, ho, rfl⟩ := Function.mem_relocations.1 hmem
  have hsite := List.find?_eq_none.1 h (number, o.toNat) (Function.mem_loadSites.2 ⟨block, hblock, o, ho, rfl⟩)
  have hlength : Opcode.loadStaticAddress.encodedLength = 5 := rfl
  simpa [hlength] using hsite

theorem relocateInPlace_eq :
    relocateInPlace addresses f =
      match f.relocate addresses with
      | .ok g => .ok () g
      | .error e => .error e f := by
  unfold relocateInPlace Function.relocate
  show (if f.patched then (_ : Relocating Unit) else (_ : Relocating Unit)) f = _
  by_cases hpatched : f.patched = true
  · rw [if_pos hpatched, if_pos hpatched]
    rfl
  rw [if_neg hpatched, if_neg hpatched]
  by_cases hcount : addresses.length ≠ f.staticData.length
  · rw [if_pos hcount, if_pos hcount]
    rfl
  rw [if_neg hcount, if_neg hcount]
  show EStateM.bind (checkLoads f.staticData) _ f = _
  rw [EStateM.bind, checkLoads_apply, Function.findSome?_siteError?]
  cases hdangling : f.danglingLoad? with
  | some site => rfl
  | none =>
    show EStateM.bind (writeLoads f.staticData addresses) _ f = _
    have hwrites := foldl_of_foldlM (foldlM_writeWord? (f.le_size_of_mem_relocations addresses hdangling))
    rw [EStateM.bind, writeLoads_apply, hwrites]
    rfl

end

/-! ### Outcomes -/

/-- The operand of a load at the offset would not lie inside the code. -/
def Function.Dangles (f : Function) (offset : UInt64) : Prop :=
  f.code.size < offset.toNat + 5

/-- What the relocated function has of the one before. -/
structure Function.RewrittenTo (f : Function) (addresses : List Word) (g : Function) : Prop where
  fields : g = { f with code := g.code, patched := true }
  size_code : g.code.size = f.code.size
  /-- No write fails for lack of room. -/
  writes : (f.relocations addresses).foldlM
    (fun code relocation => code.writeWord? (relocation.1 + 1) relocation.2) f.code = some g.code
  bytes : ∀ n, g.code[n]? =
    match f.lastWrite? addresses n with
    | some (offset, address) => (Word.toBytes address)[n - (offset + 1)]?
    | none => f.code[n]?
  again : ∀ others, relocateInPlace others g = .error (.alreadyPatched g.name) g

/-- The outcomes of relocating a function in place, with the function that each leaves behind.  The conditions exclude each
other: an error is reported only if there is none of those before it. -/
inductive Function.RelocationOutcome (f : Function) (addresses : List Word) :
    EStateM.Result CodeError Function Unit → Prop
  | alreadyPatched (hpatched : f.patched = true) :
      RelocationOutcome f addresses (.error (.alreadyPatched f.name) f)
  | countMismatch (hpatched : f.patched = false) (hcount : addresses.length ≠ f.staticData.length) :
      RelocationOutcome f addresses (.error (.patchCountMismatch f.name f.staticData.length addresses.length) f)
  | dangling (hpatched : f.patched = false) (hcount : addresses.length = f.staticData.length)
      {number : Nat} {block : Block} {position : Nat} {offset : UInt64} (hblock : f.staticData[number]? = some block)
      (hoffset : block.loadOffsets[position]? = some offset) (hdangles : f.Dangles offset)
      (hearlier : ∀ (earlier : Nat) (other : UInt64), earlier < position → block.loadOffsets[earlier]? = some other →
        ¬ f.Dangles other)
      (hblocks : ∀ (earlier : Nat) (block' : Block), earlier < number → f.staticData[earlier]? = some block' →
        ∀ other ∈ block'.loadOffsets, ¬ f.Dangles other) :
      RelocationOutcome f addresses (.error (.danglingStaticLoad number offset.toNat) f)
  | relocated (hpatched : f.patched = false) (hcount : addresses.length = f.staticData.length)
      (hloads : ∀ block ∈ f.staticData, ∀ offset ∈ block.loadOffsets, ¬ f.Dangles offset)
      {g : Function} (hg : f.RewrittenTo addresses g) : RelocationOutcome f addresses (.ok () g)

section

variable {f : Function}

theorem Function.siteError?_eq_none_iff {number : Nat} {offset : UInt64} :
    f.siteError? number offset.toNat = none ↔ ¬ f.Dangles offset := by
  simp [Function.siteError?, Function.Dangles]

theorem Function.siteError?_eq_some_iff {number : Nat} {offset : UInt64} {e : CodeError} :
    f.siteError? number offset.toNat = some e ↔ f.Dangles offset ∧ .danglingStaticLoad number offset.toNat = e := by
  simp [Function.siteError?, Function.Dangles]

theorem Function.rewrittenTo_withAddresses (addresses : List Word) (h : f.danglingLoad? = none) :
    f.RewrittenTo addresses (f.withAddresses addresses) := by
  have hfit := f.le_size_of_mem_relocations addresses h
  constructor
  case fields => rfl
  case size_code => exact size_foldl_writeAddress _ _
  case writes => exact foldlM_writeWord? hfit
  case bytes => exact getElem?_foldl_writeAddress hfit
  case again =>
    intro others
    have hpatched : (f.withAddresses addresses).patched = true := rfl
    rw [relocateInPlace_eq, Function.relocate, if_pos hpatched]

/-- A function that changes in place is relocated as a whole or not at all. -/
theorem relocateInPlace_exact (f : Function) (addresses : List Word) :
    (relocateInPlace addresses f =
      match f.relocate addresses with
      | .ok g => .ok () g
      | .error e => .error e f) ∧
    f.RelocationOutcome addresses (relocateInPlace addresses f) := by
  refine ⟨relocateInPlace_eq f addresses, ?_⟩
  rw [relocateInPlace_eq, Function.relocate]
  by_cases hpatched : f.patched = true
  · rw [if_pos hpatched]
    exact .alreadyPatched hpatched
  rw [if_neg hpatched]
  have hfresh : f.patched = false := Bool.eq_false_iff.2 hpatched
  by_cases hcount : addresses.length = f.staticData.length
  · rw [if_neg (not_not.2 hcount)]
    have hsites := f.findSome?_siteError?
    cases hdangling : f.danglingLoad? with
    | some site =>
      obtain ⟨reported, place⟩ := site
      rw [hdangling] at hsites
      obtain ⟨number, block, position, offset, hblock, hoffset, herror, hearlier, hblocks⟩ :=
        Function.exists_first_of_loadSites hsites
      obtain ⟨hdangles, heq⟩ := Function.siteError?_eq_some_iff.1 herror
      cases heq
      exact .dangling hfresh hcount hblock hoffset hdangles
        (fun earlier other hlt hother => Function.siteError?_eq_none_iff.1 (hearlier earlier other hlt hother))
        fun earlier block' hlt hblock' other hother =>
          Function.siteError?_eq_none_iff.1 (hblocks earlier block' hlt hblock' other hother)
    | none =>
      rw [hdangling] at hsites
      refine .relocated hfresh hcount (fun block hblock offset hoffset => ?_)
        (Function.rewrittenTo_withAddresses addresses hdangling)
      obtain ⟨number, hnumber⟩ := List.mem_iff_getElem?.1 hblock
      have hsite := List.findSome?_eq_none_iff.1 hsites (number, offset.toNat)
        (Function.mem_loadSites.2 ⟨block, hnumber, offset, hoffset, rfl⟩)
      exact Function.siteError?_eq_none_iff.1 hsite
  · rw [if_pos hcount]
    exact .countMismatch hfresh hcount

end

-- two loads that overlap: where both addresses reach, the second stands
example :
    let f : Function :=
      { name := "overlapping", localOffsets := [], localSize := 0, code := #[0, 0, 0, 0, 0, 0, 0]
        staticData := [⟨#[], [0], none⟩, ⟨#[], [2], none⟩] }
    (f.relocate [0x01010101, 0x02020202]).toOption.map Function.code = some #[0, 1, 1, 2, 2, 2, 2] := by
  decide

end StackMachine
