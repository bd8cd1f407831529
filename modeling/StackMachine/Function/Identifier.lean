/-!
# Identifiers of static blocks

An identifier names a static block so that the block can be found again in a finished image.  Two identifiers are the same
if their numbers are; the label is for people.  A supply hands out identifiers with numbers not used before.
-/

namespace StackMachine

/-- A number, and a label that plays no part in comparisons. -/
structure Identifier where
  id : UInt64
  label : Option String
deriving DecidableEq, Repr

/-- Two identifiers name the same block if their numbers agree. -/
def Identifier.same (a b : Identifier) : Bool :=
  a.id == b.id

/-- The label, or `static` without one, and the number. -/
def Identifier.text (identifier : Identifier) : String :=
  identifier.label.getD "static" ++ s!"#{identifier.id.toNat}"

/-- The number that the next fresh identifier takes. -/
structure IdentifierSupply where
  next : UInt64 := 1
deriving DecidableEq, Repr

/-- A fresh identifier with the given label, and the supply without its number. -/
def IdentifierSupply.take (supply : IdentifierSupply) (label : Option String) : Identifier × IdentifierSupply :=
  (⟨supply.next, label⟩, ⟨supply.next + 1⟩)

end StackMachine
