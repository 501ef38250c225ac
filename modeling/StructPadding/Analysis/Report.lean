-- SUMMARY: Reports on padded structs: where the padding lies and which field order has less of it.
import StructPadding.Layout.Finding
import StructPadding.Layout.Order
import StructPadding.Package.Site

/-!
# Reports

A report tells of one struct literal that it is padded, names the gaps between its fields, and may suggest a
field order that makes the struct smaller.
-/

namespace StructPadding

/-- A field order that removes some or all of the padding. -/
structure Suggestion where
  order : List String
  size : Nat
  deriving DecidableEq, Repr

/-- A padded struct. -/
structure Report where
  /-- The number of the file among the files looked at. -/
  file : Nat
  /-- The word `struct`. -/
  span : Span
  name : Option String
  finding : Finding
  /-- The fields with padding before them, and how much. -/
  gaps : List (String × Nat)
  tail : Nat
  suggestion : Option Suggestion
  deriving DecidableEq, Repr

namespace Report

def message (r : Report) : String :=
  s!"the struct has a net size of {r.finding.reference} bytes but padded to {r.finding.actual} bytes"

def bytesText (n : Nat) : String := if n = 1 then "1 byte" else s!"{n} bytes"

/-- Where the padding goes, one note for each gap. -/
def paddingNotes (r : Report) : List String :=
  r.gaps.map (fun (name, n) => s!"padding before `{name}`: {bytesText n}") ++
    (if r.tail = 0 then [] else [s!"trailing padding: {bytesText r.tail}"])

/-- The gaps between the fields of a struct. -/
def gapsOf (m : Machine) (fields : List Field) : List (String × Nat) :=
  (fields.zip (fieldSlots m fields)).filterMap fun (f, slot) =>
    if slot.paddingBefore = 0 then none else some (f.name, slot.paddingBefore)

/-- The suggested field order, where it makes the struct smaller. -/
def suggestionFor (m : Machine) (fields : List Field) : Option Suggestion :=
  let size := suggestedSize m fields
  if size < actualSize m fields then
    some ⟨(reorder fields (suggestedOrder m fields)).map (·.name), size⟩
  else none

/-- The report on a struct literal with the given fields, if it is padded. -/
def ofSite? (m : Machine) (suggest : Bool) (site : Site) (fields : List Field) : Option Report :=
  (Finding.ofFields? m fields).map fun finding =>
    { file := site.file
      span := site.type.keyword
      name := site.name
      finding
      gaps := gapsOf m fields
      tail := tailPadding m fields
      suggestion := if suggest then suggestionFor m fields else none }

end Report

end StructPadding
