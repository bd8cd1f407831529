import StackMachine.Bytes.Word

/-!
# The operand stack

The words that instructions work on, the top one first.  The depth is kept beside the words, so that looking at it does
not go through them; it always is their number (`OperandStack.depth_eq`), and the words alone decide when two stacks are
equal (`OperandStack.ext`).
-/

namespace StackMachine

/-- A stack of words. -/
structure OperandStack where
  /-- The words, top first. -/
  words : List Word := []
  /-- How many words there are. -/
  depth : Nat := 0
  depth_eq : depth = words.length := by rfl
deriving DecidableEq, Repr

namespace OperandStack

@[ext] theorem ext {a b : OperandStack} (h : a.words = b.words) : a = b := by
  obtain ⟨words, depth, hdepth⟩ := a
  obtain ⟨words', depth', hdepth'⟩ := b
  cases h
  cases hdepth
  cases hdepth'
  rfl

/-- The stack of the given words. -/
def ofWords (words : List Word) : OperandStack :=
  { words, depth := words.length }

/-- The stack with one more word on top. -/
def push (stack : OperandStack) (word : Word) : OperandStack :=
  { words := word :: stack.words
    depth := stack.depth + 1
    depth_eq := by rw [stack.depth_eq, List.length_cons] }

/-- The top word, and the stack below it. -/
def pop? : OperandStack → Option (Word × OperandStack)
  | ⟨[], _, _⟩ => none
  | ⟨word :: rest, depth, depth_eq⟩ =>
    some (word,
      { words := rest
        depth := depth - 1
        depth_eq := by rw [depth_eq, List.length_cons, Nat.add_sub_cancel] })

@[simp] theorem words_ofWords (words : List Word) : (ofWords words).words = words := rfl

@[simp] theorem ofWords_words (stack : OperandStack) : ofWords stack.words = stack :=
  ext rfl

@[simp] theorem words_push (stack : OperandStack) (word : Word) :
    (stack.push word).words = word :: stack.words := rfl

@[simp] theorem depth_push (stack : OperandStack) (word : Word) :
    (stack.push word).depth = stack.depth + 1 := rfl

/-- What was pushed last is popped first. -/
@[simp] theorem pop?_push (stack : OperandStack) (word : Word) : (stack.push word).pop? = some (word, stack) := rfl

/-- Popping is the inverse of pushing. -/
theorem pop?_eq_some_iff {stack rest : OperandStack} {word : Word} :
    stack.pop? = some (word, rest) ↔ stack = rest.push word := by
  constructor
  · intro h
    obtain ⟨words, depth, hdepth⟩ := stack
    cases words with
    | nil => cases h
    | cons top below =>
      cases h
      exact ext rfl
  · rintro rfl
    exact pop?_push rest word

/-- Only the empty stack has no top. -/
theorem pop?_eq_none_iff {stack : OperandStack} : stack.pop? = none ↔ stack.words = [] := by
  obtain ⟨words, depth, hdepth⟩ := stack
  cases words with
  | nil => exact iff_of_true rfl rfl
  | cons top below => exact iff_of_false nofun nofun

end OperandStack

end StackMachine
