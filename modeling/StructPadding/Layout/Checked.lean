-- SUMMARY: Sizes that exist only where the value and all its parts fit the target's address space.
import StructPadding.Layout.Extent

/-!
# Checked sizes

The same placement as in `Extent`, with no result as soon as a part of the value is larger than any object
of the target, or a number on the way is no byte count.
-/

namespace StructPadding

namespace Extent

/-- The end of the last field, when `used` bytes lie before the fields. -/
def checkedStop (used : Nat) : List Extent → Option Nat
  | [] => some used
  | e :: rest => do
    let offset ← Word.roundUp? used e.align
    let stop ← Word.add? offset (e.occupied rest.isEmpty used)
    checkedStop stop rest

/-- The size of a struct whose fields have the given extents. -/
def checkedStructSize (m : Machine) (es : List Extent) : Option Nat := do
  let stop ← checkedStop 0 es
  let size ← Word.roundUp? stop (maxAlign es)
  m.addressable? size

end Extent

mutual

/-- The extent of a value, where it and its parts fit the address space. -/
def Shape.checkedExtent (m : Machine) : Shape → Option Extent
  | .scalar s => do
    let size ← m.addressable? (s.size m)
    some { s.extent m with size }
  | .array e n => do
    let one ← e.checkedExtent m
    let total ← Word.mul? n one.size
    let size ← m.addressable? total
    some { one.times n with size }
  | .struct fields => do
    let es ← checkedExtents m fields
    let size ← Extent.checkedStructSize m es
    some { Extent.ofFields es with size }

/-- The extents of fields that all fit. -/
def checkedExtents (m : Machine) : List Field → Option (List Extent)
  | [] => some []
  | f :: rest => do
    let e ← f.checkedExtent m
    let es ← checkedExtents m rest
    some (e :: es)

def Field.checkedExtent (m : Machine) : Field → Option Extent
  | ⟨_, shape⟩ => shape.checkedExtent m

end

/-- The size of a value, where it and its parts fit the address space. -/
def Shape.checkedSize (m : Machine) (s : Shape) : Option Nat := (s.checkedExtent m).map (·.size)

/-- The size of a struct with the given fields, where it and its parts fit the address space. -/
def checkedActualSize (m : Machine) (fields : List Field) : Option Nat :=
  (Shape.struct fields).checkedSize m

end StructPadding
