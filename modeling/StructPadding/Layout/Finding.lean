-- SUMMARY: The verdict on one struct: whether its padded size differs from the sum of its fields.
import StructPadding.Layout.Extent

/-!
# Finding

A struct is padded when its actual size is not its reference size.
-/

namespace StructPadding

/-- A struct whose padded size differs from the sum of its fields. -/
structure Finding where
  actual : Nat
  reference : Nat
  deriving DecidableEq, Repr, Inhabited

/-- Bytes of padding in the layout. -/
def Finding.padding (f : Finding) : Nat := f.actual - f.reference

/-- The finding for a struct with the given fields, if it is padded. Structs among the fields are sized
    the same way, but are not judged here. -/
def Finding.ofFields? (m : Machine) (fields : List Field) : Option Finding :=
  let actual := actualSize m fields
  let reference := referenceSize m fields
  if actual = reference then none else some { actual, reference }

end StructPadding
