-- SUMMARY: Shapes: what is left of a type once only its layout matters.

/-!
# Shape

The layout of a value depends on its type only through scalars, arrays and structs. A field's name has no
part in its layout and is kept for reports.
-/

namespace StructPadding

/-- Values that are laid out as one unit. -/
inductive Scalar
  | bool
  | int8 | int16 | int32 | int64
  | uint8 | uint16 | uint32 | uint64
  | float32 | float64
  | complex64 | complex128
  /-- A data pointer and a length. -/
  | string
  | pointer
  /-- A data pointer, a length and a capacity. -/
  | slice
  /-- A type word and a data word. -/
  | interface
  | chan | map | func
  deriving DecidableEq, Repr, Inhabited

namespace Scalar

def name : Scalar → String
  | .bool => "bool"
  | .int8 => "int8" | .int16 => "int16" | .int32 => "int32" | .int64 => "int64"
  | .uint8 => "uint8" | .uint16 => "uint16" | .uint32 => "uint32" | .uint64 => "uint64"
  | .float32 => "float32" | .float64 => "float64"
  | .complex64 => "complex64" | .complex128 => "complex128"
  | .string => "string"
  | .pointer => "pointer"
  | .slice => "slice"
  | .interface => "interface"
  | .chan => "chan" | .map => "map" | .func => "func"

def all : List Scalar :=
  [.bool, .int8, .int16, .int32, .int64, .uint8, .uint16, .uint32, .uint64, .float32, .float64, .complex64,
   .complex128, .string, .pointer, .slice, .interface, .chan, .map, .func]

def ofName? (s : String) : Option Scalar := all.find? (·.name == s)

end Scalar

mutual

/-- The shape of a type. -/
inductive Shape
  | scalar (s : Scalar)
  | array (element : Shape) (length : Nat)
  /-- Fields in declaration order. -/
  | struct (fields : List Field)

structure Field where
  name : String
  shape : Shape

end

instance : Inhabited Shape := ⟨.scalar default⟩
instance : Inhabited Field := ⟨⟨"", default⟩⟩

instance : Coe Scalar Shape := ⟨.scalar⟩

/-- A short name for messages; a struct is named by its number of fields. -/
def Shape.describe : Shape → String
  | .scalar s => s.name
  | .array e n => s!"[{n}]{e.describe}"
  | .struct fields => s!"struct with {fields.length} fields"

end StructPadding
