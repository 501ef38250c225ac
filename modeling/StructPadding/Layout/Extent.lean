-- SUMMARY: Placement of fields in a struct, and size, alignment and pointer prefix of every shape.
import StructPadding.Machine
import StructPadding.Layout.Shape

/-!
# Extent

A struct is laid out from the extents of its fields: their sizes, alignments and pointer prefixes. The
first half of this module places a list of extents; the second half measures every shape, a struct by
placing the extents of its fields.
-/

namespace StructPadding

/-- What a layout has to know of a value. -/
structure Extent where
  size : Nat
  align : Nat
  /-- Length of the leading byte range that may hold a traceable reference; zero without references. -/
  pointerPrefix : Nat
  deriving DecidableEq, Repr, Inhabited

/-- Where one field of a struct lies. -/
structure Slot where
  index : Nat
  offset : Nat
  /-- Bytes occupied, which for a zero-size last field may be one. -/
  size : Nat
  align : Nat
  /-- Bytes left unused between the end of the field before and this one. -/
  paddingBefore : Nat
  deriving DecidableEq, Repr, Inhabited

def Slot.stop (s : Slot) : Nat := Word.add s.offset s.size

/-! ## Placing extents in order -/

namespace Extent

/-- Bytes a field takes when `used` bytes lie before it. A zero-size last field behind other bytes takes
    one byte, so that a pointer to it stays inside the struct. -/
def occupied (e : Extent) (isLast : Bool) (used : Nat) : Nat :=
  if isLast ∧ e.size = 0 ∧ used ≠ 0 then 1 else e.size

/-- The slots of the fields from number `index` on, when `used` bytes lie before them. -/
def placeFrom (index used : Nat) : List Extent → List Slot
  | [] => []
  | e :: rest =>
    let size := e.occupied rest.isEmpty used
    let offset := Word.roundUp used e.align
    { index, offset, size, align := e.align, paddingBefore := offset - used } ::
      placeFrom (index + 1) (Word.add offset size) rest

/-- The slots of all fields of a struct. -/
def place (es : List Extent) : List Slot := placeFrom 0 0 es

/-- The largest alignment of the fields; one without fields. -/
def maxAlign (es : List Extent) : Nat := es.foldr (fun e a => max e.align a) 1

/-- The end of the last field. -/
def stop (es : List Extent) : Nat := ((place es).getLast?.map Slot.stop).getD 0

/-- The size of the struct: the end of its last field, rounded up to the largest alignment. -/
def structSize (es : List Extent) : Nat := Word.roundUp (stop es) (maxAlign es)

/-- Bytes behind the last field. -/
def tailPadding (es : List Extent) : Nat := structSize es - stop es

/-- The sum of the field sizes, without any padding. -/
def netSize (es : List Extent) : Nat := es.foldl (fun sum e => Word.add sum e.size) 0

/-- The end of the last pointerful field's pointer range, when `used` bytes lie before the fields. -/
def pointerPrefixFrom (used : Nat) : List Extent → Nat
  | [] => 0
  | e :: rest =>
    let offset := Word.roundUp used e.align
    match pointerPrefixFrom (Word.add offset e.size) rest with
    | 0 => if e.pointerPrefix = 0 then 0 else Word.add offset e.pointerPrefix
    | later => later

/-- The extent of a struct with the given fields. -/
def ofFields (es : List Extent) : Extent where
  size := structSize es
  align := maxAlign es
  pointerPrefix := pointerPrefixFrom 0 es

/-- The extent of `n` values of extent `e` in a row. -/
def times (n : Nat) (e : Extent) : Extent where
  size := Word.mul n e.size
  align := e.align
  pointerPrefix :=
    if n = 0 ∨ e.pointerPrefix = 0 then 0 else Word.add (Word.mul (n - 1) e.size) e.pointerPrefix

@[simp] theorem place_nil : place [] = [] := rfl
@[simp] theorem maxAlign_nil : maxAlign [] = 1 := rfl
@[simp] theorem maxAlign_cons (e : Extent) (es : List Extent) :
    maxAlign (e :: es) = max e.align (maxAlign es) := rfl
@[simp] theorem structSize_nil : structSize [] = 0 := rfl

theorem length_placeFrom (index used : Nat) (es : List Extent) :
    (placeFrom index used es).length = es.length := by
  induction es generalizing index used with
  | nil => rfl
  | cons e rest ih => simp [placeFrom, ih]

theorem maxAlign_pos (es : List Extent) : 0 < maxAlign es := by
  induction es with
  | nil => exact Nat.one_pos
  | cons e rest ih => exact Nat.lt_of_lt_of_le ih (Nat.le_max_right ..)

theorem maxAlign_dvd_structSize (es : List Extent) : maxAlign es ∣ structSize es := Word.dvd_roundUp ..

end Extent

/-! ## Scalars -/

namespace Scalar

/-- Words taken by the scalars whose size follows the machine, zero for the others. -/
def words : Scalar → Nat
  | .string | .interface => 2
  | .slice => 3
  | .pointer | .chan | .map | .func => 1
  | _ => 0

/-- Leading words that may hold a reference. -/
def pointerWords : Scalar → Nat
  | .string | .pointer | .slice | .chan | .map | .func => 1
  | .interface => 2
  | _ => 0

def size (m : Machine) : Scalar → Nat
  | .bool | .int8 | .uint8 => 1
  | .int16 | .uint16 => 2
  | .int32 | .uint32 | .float32 => 4
  | .int64 | .uint64 | .float64 | .complex64 => 8
  | .complex128 => 16
  | s => Word.mul s.words m.wordSize

/-- A scalar is aligned to its own size, as far as the machine asks for. -/
def align (m : Machine) (s : Scalar) : Nat := min (max (s.size m) 1) m.maxAlign

def extent (m : Machine) (s : Scalar) : Extent where
  size := s.size m
  align := s.align m
  pointerPrefix := Word.mul s.pointerWords m.wordSize

end Scalar

/-! ## Shapes -/

mutual

def Shape.extent (m : Machine) : Shape → Extent
  | .scalar s => s.extent m
  | .array e n => (e.extent m).times n
  | .struct fields => .ofFields (extents m fields)

/-- The extents of a list of fields. -/
def extents (m : Machine) : List Field → List Extent
  | [] => []
  | f :: rest => f.extent m :: extents m rest

def Field.extent (m : Machine) : Field → Extent
  | ⟨_, shape⟩ => shape.extent m

end

@[simp] theorem extents_eq_map (m : Machine) (fields : List Field) :
    extents m fields = fields.map (Field.extent m) := by
  induction fields with
  | nil => rfl
  | cons f rest ih => simp [extents, ih]

theorem Field.extent_eq (m : Machine) (f : Field) : f.extent m = f.shape.extent m := by
  cases f; rfl

/-- The slots of a struct's fields. -/
def fieldSlots (m : Machine) (fields : List Field) : List Slot := Extent.place (extents m fields)

/-- The size of a struct with the given fields, padding included. -/
def actualSize (m : Machine) (fields : List Field) : Nat := Extent.structSize (extents m fields)

/-- The sum of the field sizes. -/
def referenceSize (m : Machine) (fields : List Field) : Nat := Extent.netSize (extents m fields)

/-- Bytes behind the last field of a struct. -/
def tailPadding (m : Machine) (fields : List Field) : Nat := Extent.tailPadding (extents m fields)

end StructPadding
