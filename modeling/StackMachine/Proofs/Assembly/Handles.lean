import StackMachine.Proofs.Assembly.Script
import StackMachine.Proofs.Assembly.Success

/-!
# Whose handle it is

A handle is handed out by the call of a script that creates what it refers to (`Builder.HandedOut`).  It is the number
of things of its kind that exist by then.  So the handles that a script has handed out are the indices below the number
of labels or of blocks (`handedOut_iff`), and a builder refuses exactly the handles that are none of them
(`refusesUnissued`).

Nothing in a handle tells which builder handed it out.  A builder that has handed out the same index itself takes the
handle of another builder for its own (`takes_foreign_handles`).
-/

namespace StackMachine

namespace Builder

/-- The handle that a call on the builder hands out. -/
def Call.handed? (builder : Builder) : Call → Option (HandleKind × UInt32)
  | .createLabel => some (.label, builder.createLabel.1.index)
  | .defineBlock block => some (.staticData, (builder.defineBlock block).1.index)
  | _ => none

/-- A call of the script has handed out the handle. -/
def HandedOut (name : String) (script : List Call) (kind : HandleKind) (index : UInt32) : Prop :=
  ∃ before c, (∃ rest, script = before ++ c :: rest) ∧ c.handed? (after name before) = some (kind, index)

/-- The number of things that handles of the kind can refer to. -/
def handleCount (builder : Builder) : HandleKind → Nat
  | .label => builder.labels.size
  | .staticData => builder.blocks.size

/-- A handle that the script has not handed out is of no use to the builder. -/
structure RefusesUnissued (name : String) (script : List Call) : Prop where
  setLabel_iff : ∀ label, (after name script).setLabel label = .error (.unknownHandle .label label.index) ↔
    ¬HandedOut name script .label label.index
  unchanged : ∀ label, ¬HandedOut name script .label label.index →
    after name (script ++ [.setLabel label]) = after name script
  branch : ∀ conditional label, ¬HandedOut name script .label label.index →
    .branch conditional label ∈ emitted script → ∀ f, (after name script).assemble ≠ .ok f
  load : ∀ block, ¬HandedOut name script .staticData block.index →
    .staticAddress block ∈ emitted script → ∀ f, (after name script).assemble ≠ .ok f

/-! ### One call -/

theorem size_labels_setLabel {builder next : Builder} {label : Label} (h : builder.setLabel label = .ok next) :
    next.labels.size = builder.labels.size := by
  rw [(setLabel_ok h).2]
  exact Array.size_setIfInBounds

private theorem toNat_lt_succ_iff {index : UInt32} {count : Nat} :
    index.toNat < count + 1 ↔ index.toNat < count ∨ UInt32.ofNat count = index := by
  -- a count that is no index any more wraps around to an index that was handed out before
  constructor
  · intro h
    by_cases hlt : index.toNat < count
    · exact .inl hlt
    · have heq : count = index.toNat := by omega
      rw [heq, UInt32.ofNat_toNat]
      exact .inr rfl
  · rintro (h | rfl)
    · omega
    · have hle : (UInt32.ofNat count).toNat ≤ count := by
        rw [UInt32.toNat_ofNat']
        exact Nat.mod_le _ _
      omega

/-- After a call there is one more index exactly if the call hands it out. -/
theorem lt_handleCount_call {builder : Builder} {c : Call} {kind : HandleKind} {index : UInt32} :
    index.toNat < (builder.call c).handleCount kind ↔
      index.toNat < builder.handleCount kind ∨ c.handed? builder = some (kind, index) := by
  cases c with
  | createLabel =>
    cases kind with
    | label =>
      have hcount : (builder.call .createLabel).handleCount .label = builder.labels.size + 1 := Array.size_push _
      rw [hcount, toNat_lt_succ_iff]
      simp [handleCount, Call.handed?, Builder.createLabel]
    | staticData => simp [Builder.call, handleCount, Call.handed?, Builder.createLabel]
  | defineBlock block =>
    cases kind with
    | label => simp [Builder.call, handleCount, Call.handed?, Builder.defineBlock]
    | staticData =>
      have hcount : (builder.call (.defineBlock block)).handleCount .staticData = builder.blocks.size + 1 :=
        Array.size_push _
      rw [hcount, toNat_lt_succ_iff]
      simp [handleCount, Call.handed?, Builder.defineBlock]
  | setLabel label =>
    have hcount : (builder.call (.setLabel label)).handleCount kind = builder.handleCount kind := by
      rcases builder.call_setLabel label with ⟨next, hset, hcall⟩ | ⟨-, hcall⟩
      · rw [hcall]
        cases kind with
        | label => exact size_labels_setLabel hset
        | staticData =>
          rw [(setLabel_ok hset).2]
          rfl
      · rw [hcall]
    rw [hcount]
    simp [Call.handed?]
  | setLocalSizes | emit | emitSource =>
    cases kind <;>
      simp [Builder.call, Builder.setLocalSizes, Builder.emitSource, Builder.emit, handleCount, Call.handed?]

/-! ### Whole scripts -/

theorem handedOut_append_singleton {name : String} {script : List Call} {c : Call} {kind : HandleKind}
    {index : UInt32} :
    HandedOut name (script ++ [c]) kind index ↔
      HandedOut name script kind index ∨ c.handed? (after name script) = some (kind, index) := by
  constructor
  · rintro ⟨before, d, hsplit, hhanded⟩
    rcases split_append_singleton.1 hsplit with hearlier | ⟨rfl, rfl⟩
    · exact .inl ⟨before, d, hearlier, hhanded⟩
    · exact .inr hhanded
  · rintro (⟨before, d, hearlier, hhanded⟩ | hhanded)
    · exact ⟨before, d, split_append_singleton.2 (.inl hearlier), hhanded⟩
    · exact ⟨script, c, split_append_singleton.2 (.inr ⟨rfl, rfl⟩), hhanded⟩

/-- The handles that a script has handed out are the indices of what the builder has. -/
theorem handedOut_iff {name : String} {script : List Call} {kind : HandleKind} {index : UInt32} :
    HandedOut name script kind index ↔ index.toNat < (after name script).handleCount kind := by
  induction script using List.reverseRecOn with
  | nil =>
    have hempty : (after name []).handleCount kind = 0 := by cases kind <;> rfl
    rw [hempty]
    refine iff_of_false ?_ (Nat.not_lt_zero _)
    rintro ⟨before, c, ⟨rest, hsplit⟩, -⟩
    simp at hsplit
  | append_singleton script c ih =>
    rw [handedOut_append_singleton, ih, after_append_singleton, lt_handleCount_call]

theorem setLabel_unknown_iff {builder : Builder} {label : Label} :
    builder.setLabel label = .error (.unknownHandle .label label.index) ↔ builder.labels.size ≤ label.index.toNat := by
  rw [← Array.getElem?_eq_none_iff]
  unfold Builder.setLabel
  cases builder.labels[label.index.toNat]? with
  | none => exact iff_of_true rfl rfl
  | some position => cases position <;> exact iff_of_false nofun nofun

theorem exists_getElem?_of_mem_emitted {name : String} {script : List Call} {emission : Emission}
    (h : emission ∈ emitted script) : ∃ k : Nat, (after name script).emissions[k]? = some emission := by
  rw [← emissions_after name, Array.mem_toList_iff] at h
  exact Array.mem_iff_getElem?.1 h

theorem refusesUnissued (name : String) (script : List Call) : RefusesUnissued name script := by
  have hrefused : ∀ label, (after name script).setLabel label = .error (.unknownHandle .label label.index) ↔
      ¬HandedOut name script .label label.index := by
    intro label
    rw [setLabel_unknown_iff, handedOut_iff, Nat.not_lt]
    rfl
  refine ⟨hrefused, ?_, ?_, ?_⟩
  · intro label hunissued
    rw [after_append_singleton, Builder.call, (hrefused label).2 hunissued]
  · intro conditional label hunissued hemitted f hassemble
    have hassemblable := (assemble_ok_iff _).1 ⟨f, hassemble⟩
    obtain ⟨k, hk⟩ := exists_getElem?_of_mem_emitted hemitted
    obtain ⟨position, hposition⟩ := hassemblable.labels k conditional label hk
    exact hunissued (handedOut_iff.2 (Array.getElem?_eq_some_iff.1 hposition).1)
  · intro block hunissued hemitted f hassemble
    have hassemblable := (assemble_ok_iff _).1 ⟨f, hassemble⟩
    obtain ⟨k, hk⟩ := exists_getElem?_of_mem_emitted hemitted
    exact hunissued (handedOut_iff.2 (hassemblable.blocks k block hk))

/-! ### Handles of another builder -/

/-- A script that hands out a label and a block. -/
def lender : List Call :=
  [.createLabel, .defineBlock { data := #[1, 2, 3, 4] }]

/-- A script that makes a label and a block of its own, and then goes to the label and loads the block of `lender`. -/
def borrower : List Call :=
  [.createLabel, .defineBlock { data := #[9] }, .emit (.staticAddress ⟨0⟩), .setLabel ⟨0⟩, .emit (.branch false ⟨0⟩)]

/-- The label of the one builder can be set in the other, and with its branch and its static load the other builder's
function is assembled; it goes to a place and loads a block of its own. -/
theorem takes_foreign_handles :
    HandedOut "lender" lender .label 0 ∧ HandedOut "lender" lender .staticData 0 ∧
    (∃ next, (after "borrower" (borrower.take 3)).setLabel ⟨0⟩ = .ok next) ∧
    .branch false ⟨0⟩ ∈ emitted borrower ∧ .staticAddress ⟨0⟩ ∈ emitted borrower ∧
    (after "borrower" borrower).assemble =
      .ok { name := "borrower", localOffsets := [], localSize := 0
            code := encodeAll [⟨.loadStaticAddress, .dataAddress 0⟩, ⟨.branch, .codeAddress 5⟩]
            staticData := [⟨#[9], [0], none⟩] } := by
  refine ⟨?_, ?_, ⟨_, rfl⟩, by decide, by decide, assemble_of_toOption (by decide +kernel)⟩
  · exact ⟨[], .createLabel, ⟨_, rfl⟩, rfl⟩
  · exact ⟨[.createLabel], .defineBlock { data := #[1, 2, 3, 4] }, ⟨_, rfl⟩, rfl⟩

end Builder

end StackMachine
