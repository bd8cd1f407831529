import Mathlib.Data.List.Induction
import StackMachine.Assembly.Function

/-!
# Scripts

A script is a list of calls on a builder, accepted or refused, and every builder that a program can hold is what a script
has made of a new one (`Builder.after`).  The instructions and the blocks of such a builder are those that the script
emits and defines, in order (`emissions_after`, `blocks_after`).

A label is set by the one call of the script that was not refused, and its position is the number of instructions emitted
before that call (`labels_after`).  So no position lies behind the end of the instructions (`position_le_after`).
-/

namespace StackMachine

namespace Builder

/-- A call on a builder. -/
inductive Call where
  | setLocalSizes (sizes : List Nat)
  | createLabel
  | setLabel (label : Label)
  | defineBlock (block : BlockData)
  | emit (emission : Emission)
  | emitSource (source : ValueSource)

/-- The builder after a call; a call that is refused leaves it as it was. -/
def call (builder : Builder) : Call → Builder
  | .setLocalSizes sizes => builder.setLocalSizes sizes
  | .createLabel => builder.createLabel.2
  | .setLabel label =>
    match builder.setLabel label with
    | .ok next => next
    | .error _ => builder
  | .defineBlock block => (builder.defineBlock block).2
  | .emit emission => builder.emit emission
  | .emitSource source => builder.emitSource source

/-- What a script makes of a new builder. -/
def after (name : String) (script : List Call) : Builder :=
  script.foldl call { name }

def Call.emission? : Call → Option Emission
  | .emit emission => some emission
  | .emitSource source => some (.localAddress source.slotIndex)
  | _ => none

def Call.block? : Call → Option BlockData
  | .defineBlock block => some block
  | _ => none

/-- The instructions that a script emits. -/
def emitted (script : List Call) : List Emission :=
  script.filterMap Call.emission?

/-- The blocks that a script defines. -/
def defined (script : List Call) : List BlockData :=
  script.filterMap Call.block?

/-- The call that follows `before` in the script sets the label, and is not refused. -/
def SetsLabel (name : String) (script : List Call) (label : Label) (before : List Call) : Prop :=
  (∃ rest, script = before ++ .setLabel label :: rest) ∧ ∃ next, (after name before).setLabel label = .ok next

/-! ### Setting a label -/

theorem setLabel_ok {builder next : Builder} {label : Label} (h : builder.setLabel label = .ok next) :
    builder.labels[label.index.toNat]? = some none ∧
      next = { builder with
        labels := builder.labels.setIfInBounds label.index.toNat (some builder.emissions.size) } := by
  unfold Builder.setLabel at h
  split at h
  · cases h
  · cases h
  · rename_i hunset
    cases h
    exact ⟨hunset, rfl⟩

/-- A call to set a label is refused, or sets the label and nothing else. -/
theorem call_setLabel (builder : Builder) (label : Label) :
    (∃ next, builder.setLabel label = .ok next ∧ builder.call (.setLabel label) = next) ∨
    ((∀ next, builder.setLabel label ≠ .ok next) ∧ builder.call (.setLabel label) = builder) := by
  cases h : builder.setLabel label with
  | ok next => exact .inl ⟨next, rfl, by simp only [Builder.call, h]⟩
  | error e => exact .inr ⟨nofun, by simp only [Builder.call, h]⟩

/-! ### One call -/

theorem emissions_call (builder : Builder) (c : Call) :
    (builder.call c).emissions.toList = builder.emissions.toList ++ c.emission?.toList := by
  cases c with
  | setLabel label =>
    rcases builder.call_setLabel label with ⟨next, hset, hcall⟩ | ⟨-, hcall⟩
    · rw [hcall, (setLabel_ok hset).2]
      simp [Call.emission?]
    · rw [hcall]
      simp [Call.emission?]
  | emit emission => simp [Builder.call, Builder.emit, Call.emission?]
  | emitSource source => simp [Builder.call, Builder.emitSource, Builder.emit, Call.emission?]
  | setLocalSizes | createLabel | defineBlock =>
    simp [Builder.call, Builder.setLocalSizes, Builder.createLabel, Builder.defineBlock, Call.emission?]

theorem blocks_call (builder : Builder) (c : Call) :
    (builder.call c).blocks.toList = builder.blocks.toList ++ c.block?.toList := by
  cases c with
  | setLabel label =>
    rcases builder.call_setLabel label with ⟨next, hset, hcall⟩ | ⟨-, hcall⟩
    · rw [hcall, (setLabel_ok hset).2]
      simp [Call.block?]
    · rw [hcall]
      simp [Call.block?]
  | defineBlock block => simp [Builder.call, Builder.defineBlock, Call.block?]
  | setLocalSizes | createLabel | emit | emitSource =>
    simp [Builder.call, Builder.setLocalSizes, Builder.createLabel, Builder.emit, Builder.emitSource, Call.block?]

/-- After a call a label has a position if it had it before, or if the call has just set it. -/
theorem labels_call {builder : Builder} {c : Call} {label : Label} {position : Nat} :
    (builder.call c).labels[label.index.toNat]? = some (some position) ↔
      builder.labels[label.index.toNat]? = some (some position) ∨
      (c = .setLabel label ∧ (∃ next, builder.setLabel label = .ok next) ∧ position = builder.emissions.size) := by
  cases c with
  | setLabel other =>
    rcases builder.call_setLabel other with ⟨next, hset, hcall⟩ | ⟨hrefused, hcall⟩
    · obtain ⟨hunset, rfl⟩ := setLabel_ok hset
      have hlt := (Array.getElem?_eq_some_iff.1 hunset).1
      rw [hcall]
      dsimp only
      rw [Array.getElem?_setIfInBounds]
      by_cases heq : other = label
      · subst heq
        rw [if_pos rfl, if_pos hlt, hunset]
        constructor
        · intro h
          cases h
          exact .inr ⟨rfl, ⟨_, hset⟩, rfl⟩
        · rintro (h | ⟨-, -, rfl⟩)
          · cases h
          · rfl
      · have hindex : other.index.toNat ≠ label.index.toNat := by
          intro h
          apply heq
          cases other
          cases label
          exact congrArg Label.mk (UInt32.toNat_inj.1 h)
        rw [if_neg hindex]
        constructor
        · exact .inl
        · rintro (h | ⟨h, -, -⟩)
          · exact h
          · exact absurd (Call.setLabel.inj h) heq
    · rw [hcall]
      constructor
      · exact .inl
      · rintro (h | ⟨h, ⟨next, hset⟩, -⟩)
        · exact h
        · cases h
          exact absurd hset (hrefused next)
  | createLabel =>
    have hpush : (builder.call .createLabel).labels = builder.labels.push none := rfl
    rw [hpush, Array.getElem?_push]
    constructor
    · intro h
      split at h
      · cases h
      · exact .inl h
    · rintro (h | ⟨h, -, -⟩)
      · have hlt := (Array.getElem?_eq_some_iff.1 h).1
        rw [if_neg (by omega)]
        exact h
      · cases h
  | setLocalSizes | defineBlock | emit | emitSource =>
    constructor
    · exact .inl
    · rintro (h | ⟨h, -, -⟩)
      · exact h
      · cases h

/-! ### Whole scripts -/

theorem after_append_singleton (name : String) (script : List Call) (c : Call) :
    after name (script ++ [c]) = (after name script).call c := by
  simp [after]

/-- A call of the longer script is the last one, or stands in the script before it. -/
theorem split_append_singleton {script before : List Call} {c d : Call} :
    (∃ rest, script ++ [c] = before ++ d :: rest) ↔
      (∃ rest, script = before ++ d :: rest) ∨ (before = script ∧ d = c) := by
  constructor
  · rintro ⟨rest, heq⟩
    rcases List.eq_nil_or_concat rest with rfl | ⟨rest, last, rfl⟩
    · obtain ⟨rfl, hlast⟩ := List.append_inj heq (by simpa using congrArg List.length heq)
      cases hlast
      exact .inr ⟨rfl, rfl⟩
    · have hscript : script ++ [c] = (before ++ d :: rest) ++ [last] := by simpa using heq
      exact .inl ⟨rest, (List.append_inj' hscript rfl).1⟩
  · rintro (⟨rest, rfl⟩ | ⟨rfl, rfl⟩)
    · exact ⟨rest ++ [c], by simp⟩
    · exact ⟨[], rfl⟩

theorem emitted_append (script more : List Call) : emitted (script ++ more) = emitted script ++ emitted more := by
  simp [emitted]

theorem emissions_after (name : String) (script : List Call) :
    (after name script).emissions.toList = emitted script := by
  induction script using List.reverseRecOn with
  | nil => rfl
  | append_singleton script c ih =>
    rw [after_append_singleton, emissions_call, ih, emitted_append]
    cases c <;> rfl

theorem blocks_after (name : String) (script : List Call) :
    (after name script).blocks.toList = defined script := by
  induction script using List.reverseRecOn with
  | nil => rfl
  | append_singleton script c ih =>
    rw [after_append_singleton, blocks_call, ih, defined, defined, List.filterMap_append]
    cases c <;> rfl

theorem size_emissions_after (name : String) (script : List Call) :
    (after name script).emissions.size = (emitted script).length := by
  rw [← emissions_after name, Array.length_toList]

theorem SetsLabel.append {name : String} {script : List Call} {label : Label} {before : List Call}
    (h : SetsLabel name script label before) (c : Call) : SetsLabel name (script ++ [c]) label before := by
  obtain ⟨⟨rest, rfl⟩, hset⟩ := h
  exact ⟨⟨rest ++ [c], by simp⟩, hset⟩

/-- A label has a position exactly if a call of the script has set it, and then it is the number of instructions emitted
before that call. -/
theorem labels_after {name : String} {script : List Call} {label : Label} {position : Nat} :
    (after name script).labels[label.index.toNat]? = some (some position) ↔
      ∃ before, SetsLabel name script label before ∧ position = (emitted before).length := by
  induction script using List.reverseRecOn with
  | nil =>
    refine iff_of_false (by simp [after]) ?_
    rintro ⟨before, ⟨⟨rest, heq⟩, -⟩, -⟩
    simp at heq
  | append_singleton script c ih =>
    rw [after_append_singleton, labels_call, ih, size_emissions_after]
    constructor
    · rintro (⟨before, hsets, hposition⟩ | ⟨rfl, hset, hposition⟩)
      · exact ⟨before, hsets.append c, hposition⟩
      · exact ⟨script, ⟨⟨[], rfl⟩, hset⟩, hposition⟩
    · rintro ⟨before, ⟨hsplit, hset⟩, hposition⟩
      rcases split_append_singleton.1 hsplit with hearlier | ⟨rfl, rfl⟩
      · exact .inl ⟨before, ⟨hearlier, hset⟩, hposition⟩
      · exact .inr ⟨rfl, hset, hposition⟩

theorem position_le_after {name : String} {script : List Call} {label : Label} {position : Nat}
    (h : (after name script).labels[label.index.toNat]? = some (some position)) :
    position ≤ (after name script).emissions.size := by
  obtain ⟨before, ⟨⟨rest, rfl⟩, -⟩, rfl⟩ := labels_after.1 h
  rw [size_emissions_after, emitted_append, List.length_append]
  omega

end Builder

end StackMachine
