-- SUMMARY: The struct literals of a package, each with what has to be known to resolve it.
import StructPadding.Syntax.File

/-!
# Sites

Every struct literal in the files of a package, those inside other literals included, ordered by file and
then by position.
-/

namespace StructPadding

/-- A struct literal to be checked. -/
structure Site where
  file : Nat
  /-- The declared name, where the literal is the whole type of a declaration. -/
  name : Option String
  /-- The type parameters of the enclosing declaration. -/
  params : List String
  /-- Whether the literal stands in a function or a signature. -/
  isLocal : Bool
  type : StructType

namespace Site

def describe (s : Site) : String :=
  match s.name with
  | some name => s!"struct {name}"
  | none => "anonymous struct"

/-- The sites of a type declaration. -/
def ofTypeDecl (file : Nat) (d : TypeDecl) : List Site :=
  let anonymous (st : StructType) : Site := ⟨file, none, d.params, false, st⟩
  match d.type with
  | .struct st => ⟨file, some d.name, d.params, false, st⟩ :: st.inner.map anonymous
  | t => t.structs.map anonymous

/-- The sites of a struct literal outside of type declarations. -/
def ofLocal (file : Nat) (l : LocalStruct) : List Site :=
  ⟨file, l.name, [], true, l.type⟩ :: l.type.inner.map fun st => ⟨file, none, [], true, st⟩

/-- The sites of one file, by position. -/
def ofFile (file : Nat) (f : SourceFile) : List Site :=
  (f.types.flatMap (ofTypeDecl file) ++ f.locals.flatMap (ofLocal file)).mergeSort
    fun a b => a.type.keyword.start ≤ b.type.keyword.start

/-- The sites of all files. -/
def collect (files : List SourceFile) : List Site := files.zipIdx.flatMap fun (f, file) => ofFile file f

end Site

end StructPadding
