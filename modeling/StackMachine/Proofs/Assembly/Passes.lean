import StackMachine.Proofs.Assembly.Script
import StackMachine.Proofs.Assembly.Success

/-!
# Assembling in passes

An assembler may keep its instructions with placeholders, and beside them a record of every branch and every static load
(`Tables`).  When the offsets are known, one pass over the records writes the operands of the branches and another collects
the offsets of the loads of each block.  Both passes look up by index, in the instructions and in the offsets, and
`Builder.assembleInPasses?` gives nothing as soon as one index is out of range.

For a builder that a script has made no index is, and the passes end as `Builder.assemble` does
(`assembleInPasses?_eq`): a record names the position of its own instruction, and a label has no position behind the end.
With that, `assemble_after` says all that can come of assembling such a builder.
-/

namespace StackMachine

/-- The instruction with a placeholder where the operand is found later. -/
def Emission.placeholder (emission : Emission) : Instruction :=
  { opcode := emission.opcode
    operand :=
      match emission with
      | .plain _ => .none
      | .immediate value => .immediate value
      | .localAddress index => .localIndex index
      | .branch _ _ => .codeAddress 0
      | .staticAddress block => .dataAddress block.index.toInt32 }

/-- Instructions with placeholders, and where the branches and the static loads are among them. -/
structure Tables where
  instructions : List Instruction := []
  branches : List (Nat × Label) := []
  loads : List (Nat × BlockHandle) := []

def Tables.emit (tables : Tables) (emission : Emission) : Tables :=
  { instructions := tables.instructions ++ [emission.placeholder]
    branches :=
      match emission with
      | .branch _ label => tables.branches ++ [(tables.instructions.length, label)]
      | _ => tables.branches
    loads :=
      match emission with
      | .staticAddress block => tables.loads ++ [(tables.instructions.length, block)]
      | _ => tables.loads }

namespace Builder

def tables (builder : Builder) : Tables :=
  builder.emissions.toList.foldl Tables.emit {}

/-- Writes the operands of the recorded branches. -/
def patchBranches? (builder : Builder) (offsets : List Nat) :
    List (Nat × Label) → List Instruction → Option (Except AssemblyError (List Instruction))
  | [], is => some (.ok is)
  | (k, label) :: records, is =>
    match builder.labels[label.index.toNat]? with
    | none => some (.error (.unknownHandle .label label.index))
    | some none => some (.error (.unsetLabel label.index))
    | some (some position) => do
      let i ← is[k]?
      let offset ← offsets[position]?
      builder.patchBranches? offsets records (is.set k { i with operand := .codeAddress (Int32.ofNat offset) })

/-- Adds the offsets of the recorded loads to those of their blocks. -/
def collectLoads? (offsets : List Nat) :
    List (Nat × BlockHandle) → List (List UInt64) → Option (Except AssemblyError (List (List UInt64)))
  | [], collected => some (.ok collected)
  | (k, block) :: records, collected =>
    match collected[block.index.toNat]? with
    | none => some (.error (.unknownHandle .staticData block.index))
    | some earlier => do
      let offset ← offsets[k]?
      collectLoads? offsets records (collected.set block.index.toNat (earlier ++ [UInt64.ofNat offset]))

/-- Assembles in passes; `none` stands for an index that is out of range. -/
def assembleInPasses? (builder : Builder) : Option (Except AssemblyError Function) := do
  let lengths := builder.tables.instructions.map Instruction.length
  let offsets := runningSums 0 lengths
  if maxWord < Size.total lengths then
    return .error (.limitExceeded (.codeTooLong (Size.total lengths)))
  match ← builder.patchBranches? offsets builder.tables.branches builder.tables.instructions with
  | .error e => return .error e
  | .ok is =>
    match ← collectLoads? offsets builder.tables.loads (List.replicate builder.blocks.size []) with
    | .error e => return .error e
    | .ok collected =>
      match layOutFrame builder.localSizes with
      | .error e => return .error e
      | .ok (localOffsets, localSize) =>
        let f : Function :=
          { name := builder.name, localOffsets, localSize, code := encodeAll is
            staticData := List.zipWith (fun block loads => ⟨block.data, loads, block.identifier⟩)
              builder.blocks.toList collected }
        match f.verify with
        | .error e => return .error (.verification e)
        | .ok () => return .ok f

/-! ### The records -/

def branchRecord? : Emission × Nat → Option (Nat × Label)
  | (.branch _ label, k) => some (k, label)
  | _ => none

def loadRecord? : Emission × Nat → Option (Nat × BlockHandle)
  | (.staticAddress block, k) => some (k, block)
  | _ => none

def loadOffset? (builder : Builder) (number : Nat) : Emission × Nat → Option UInt64
  | (.staticAddress block, k) =>
    if block.index.toNat = number then some (UInt64.ofNat (builder.offsetOf k)) else none
  | _ => none

/-- Every record names the position of its own instruction. -/
theorem tables_eq (builder : Builder) :
    builder.tables =
      { instructions := builder.emissions.toList.map Emission.placeholder
        branches := builder.emissions.toList.zipIdx.filterMap branchRecord?
        loads := builder.emissions.toList.zipIdx.filterMap loadRecord? } := by
  unfold Builder.tables
  induction builder.emissions.toList using List.reverseRecOn with
  | nil => rfl
  | append_singleton emissions emission ih =>
    rw [List.foldl_append, ih]
    cases emission <;> simp [Tables.emit, branchRecord?, loadRecord?, List.zipIdx_append]

theorem lengths_tables (builder : Builder) :
    builder.tables.instructions.map Instruction.length = builder.emissions.toList.map Emission.length := by
  rw [tables_eq, List.map_map]
  rfl

/-- The offsets that the passes look up are there, the end included. -/
theorem getElem?_offsets (builder : Builder) {k : Nat} (hk : k ≤ builder.emissions.size) :
    (runningSums 0 (builder.emissions.toList.map Emission.length))[k]? = some (builder.offsetOf k) := by
  rw [getElem?_runningSums, if_pos (by simpa using hk), Nat.zero_add, Builder.offsetOf, List.map_take]

theorem loadOffsets_eq (builder : Builder) (number : Nat) :
    builder.loadOffsets builder.offsetOf number =
      builder.emissions.toList.zipIdx.filterMap (builder.loadOffset? number) := by
  unfold Builder.loadOffsets
  congr 1
  funext ⟨emission, k⟩
  cases emission <;> rfl

/-! ### The passes -/

/-- The branches are patched up to the first one that leads nowhere. -/
theorem patchBranches?_eq {builder : Builder} {offsets : List Nat}
    (hoffsets : ∀ (label : Label) (position : Nat), builder.labels[label.index.toNat]? = some (some position) →
      offsets[position]? = some (builder.offsetOf position))
    (done : List Instruction) (rest : List Emission) :
    builder.patchBranches? offsets ((rest.zipIdx done.length).filterMap branchRecord?)
        (done ++ rest.map Emission.placeholder) =
      match rest.findSome? builder.branchFault? with
      | some e => some (.error e)
      | none => some (.ok (done ++ rest.map (builder.instruction builder.offsetOf))) := by
  induction rest generalizing done with
  | nil => simp [patchBranches?]
  | cons emission rest ih =>
    -- the pass leaves the instructions behind it as they are to be
    have hnext := ih (done ++ [builder.instruction builder.offsetOf emission])
    simp only [List.length_append, List.length_cons, List.length_nil, Nat.zero_add, List.append_assoc,
      List.cons_append, List.nil_append] at hnext
    simp only [List.zipIdx_cons, List.filterMap_cons, List.map_cons, List.findSome?_cons]
    cases emission with
    | plain | immediate | localAddress | staticAddress => exact hnext
    | branch conditional label =>
      simp only [branchRecord?, patchBranches?, Builder.branchFault?]
      cases hlabel : builder.labels[label.index.toNat]? with
      | none => rfl
      | some found =>
        cases found with
        | none => rfl
        | some position =>
          have hset : (done ++ (Emission.branch conditional label).placeholder ::
                rest.map Emission.placeholder).set done.length
                { (Emission.branch conditional label).placeholder with
                  operand := .codeAddress (Int32.ofNat (builder.offsetOf position)) } =
              done ++ builder.instruction builder.offsetOf (.branch conditional label) ::
                rest.map Emission.placeholder := by
            rw [List.set_append_right _ _ (Nat.le_refl _), Nat.sub_self, List.set_cons_zero]
            simp only [Builder.instruction, Builder.labelOffset, hlabel, Emission.placeholder]
          rw [← hnext, ← hset]
          simp [hoffsets label position hlabel]

/-- The loads are collected up to the first one that names no block. -/
theorem collectLoads?_eq {builder : Builder} {offsets : List Nat} (n : Nat) (rest : List Emission)
    (hoffsets : ∀ k, k < n + rest.length → offsets[k]? = some (builder.offsetOf k))
    (collected : List (List UInt64)) (hsize : collected.length = builder.blocks.size) :
    match rest.findSome? builder.blockFault? with
    | some e => collectLoads? offsets ((rest.zipIdx n).filterMap loadRecord?) collected = some (.error e)
    | none => ∃ complete, collectLoads? offsets ((rest.zipIdx n).filterMap loadRecord?) collected =
        some (.ok complete) ∧
        ∀ number, complete[number]? =
          collected[number]?.map (· ++ (rest.zipIdx n).filterMap (builder.loadOffset? number)) := by
  induction rest generalizing n collected with
  | nil => exact ⟨collected, rfl, by simp⟩
  | cons emission rest ih =>
    have hrest : ∀ k, k < n + 1 + rest.length → offsets[k]? = some (builder.offsetOf k) := by
      intro k hk
      exact hoffsets k (by rw [List.length_cons]; omega)
    simp only [List.zipIdx_cons, List.filterMap_cons, List.findSome?_cons]
    cases emission with
    | plain | immediate | localAddress | branch => exact ih (n + 1) hrest collected hsize
    | staticAddress block =>
      simp only [loadRecord?, collectLoads?, Builder.blockFault?]
      by_cases hlt : block.index.toNat < builder.blocks.size
      · obtain ⟨earlier, hearlier⟩ : ∃ earlier, collected[block.index.toNat]? = some earlier :=
          ⟨_, List.getElem?_eq_getElem (by omega)⟩
        have hn := hoffsets n (by rw [List.length_cons]; omega)
        have hnext := ih (n + 1) hrest
          (collected.set block.index.toNat (earlier ++ [UInt64.ofNat (builder.offsetOf n)])) (by simpa using hsize)
        rw [if_pos hlt, hearlier]
        simp only [hn, Option.bind_eq_bind, Option.bind_some]
        cases hfault : rest.findSome? builder.blockFault? with
        | some e =>
          rw [hfault] at hnext
          exact hnext
        | none =>
          rw [hfault] at hnext
          obtain ⟨complete, hcomplete, hget⟩ := hnext
          refine ⟨complete, hcomplete, fun number => ?_⟩
          rw [hget, List.getElem?_set]
          by_cases hnumber : block.index.toNat = number
          · subst hnumber
            rw [if_pos rfl, if_pos (by omega), hearlier]
            simp [loadOffset?]
          · simp [loadOffset?, hnumber]
      · rw [if_neg hlt, List.getElem?_eq_none (by omega)]

theorem staticData_of_collected {builder : Builder} {complete : List (List UInt64)}
    (h : ∀ number, complete[number]? =
      (List.replicate builder.blocks.size [])[number]?.map
        (· ++ builder.emissions.toList.zipIdx.filterMap (builder.loadOffset? number))) :
    List.zipWith (fun block loads => (⟨block.data, loads, block.identifier⟩ : Block)) builder.blocks.toList complete =
      builder.staticData := by
  apply List.ext_getElem?
  intro number
  rw [List.getElem?_zipWith, h, builder.getElem?_staticData, Array.getElem?_toList, builder.loadOffsets_eq]
  by_cases hlt : number < builder.blocks.size
  · simp [hlt]
  · simp [hlt]

/-- No index is out of range if no label has a position behind the end, and then the passes end as assembling does. -/
theorem assembleInPasses?_eq {builder : Builder}
    (hlabels : ∀ (label : Label) (position : Nat), builder.labels[label.index.toNat]? = some (some position) →
      position ≤ builder.emissions.size) :
    builder.assembleInPasses? = some builder.assemble := by
  have hpatch := patchBranches?_eq (fun label position h => builder.getElem?_offsets (hlabels label position h)) []
    builder.emissions.toList
  have hcollect := collectLoads?_eq 0 builder.emissions.toList
    (fun k hk => builder.getElem?_offsets (by simp at hk; omega)) (List.replicate builder.blocks.size []) (by simp)
  unfold assembleInPasses? Builder.assemble Builder.handleFault? Builder.codeLength
  simp only [lengths_tables]
  simp only [tables_eq, List.nil_append, List.length_nil] at hpatch ⊢
  by_cases hlong : maxWord < Size.total (builder.emissions.toList.map Emission.length)
  · rw [if_pos hlong, if_pos hlong]
    rfl
  · rw [if_neg hlong, if_neg hlong, hpatch]
    cases builder.emissions.toList.findSome? builder.branchFault? with
    | some e => rfl
    | none =>
      cases hblock : builder.emissions.toList.findSome? builder.blockFault? with
      | some e =>
        rw [hblock] at hcollect
        simp [hcollect]
      | none =>
        rw [hblock] at hcollect
        obtain ⟨collected, hcollected, hget⟩ := hcollect
        have hcode : encodeAll (builder.emissions.toList.map (builder.instruction builder.offsetOf)) = builder.code :=
          builder.code_eq_encodeAll.symm
        simp only [hcollected, Option.bind_eq_bind, Option.bind_some, hcode, staticData_of_collected hget]
        cases layOutFrame builder.localSizes with
        | error e => rfl
        | ok frame =>
          dsimp only [Option.or_none]
          generalize Function.verify _ = outcome
          cases outcome <;> rfl

/-- A builder that a script has made is assembled without an index out of range, exactly under the conditions of
`Assemblable`, and fails at the end only for the first local that is not declared. -/
theorem assemble_after (name : String) (script : List Call) :
    (after name script).assembleInPasses? = some (after name script).assemble ∧
    ((∃ f, (after name script).assemble = .ok f) ↔ (after name script).Assemblable) ∧
    ∀ e, (after name script).assemble = .error (.verification e) → (after name script).NamesFirstUndeclared e :=
  ⟨assembleInPasses?_eq fun _ _ => position_le_after, Builder.assemble_ok_iff _,
    fun _ => Builder.namesFirstUndeclared_of_assemble⟩

end Builder

end StackMachine
