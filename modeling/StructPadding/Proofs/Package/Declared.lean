-- SUMMARY: The scope of a package holds what its files declare, and sites are struct literals of their files.
import StructPadding.Package.Site
import StructPadding.Package.Scope
import StructPadding.Proofs.Syntax.Construct

/-!
# Declared names

Every symbol of a scope that is built from files belongs to the file it names. So do the redeclarations that
are found on the way, and the struct literals that are collected.
-/

namespace StructPadding

namespace Scope

/-- Whether every symbol is declared in the file it names. -/
structure DeclaredIn (files : List SourceFile) (s : Scope) : Prop where
  type : ∀ {name symbol}, (name, symbol) ∈ s.types →
    symbol.decl.name = name ∧ InFile files symbol.file (.typeDecl symbol.decl)
  const : ∀ {name symbol}, (name, symbol) ∈ s.consts →
    InFile files symbol.file (.constName name symbol.span) ∧
      ∀ e, symbol.value = some e → InFile files symbol.file (.expr e)

section

variable {files : List SourceFile} {s : Scope} (h : s.DeclaredIn files)
include h

theorem DeclaredIn.of_type? {name : String} {symbol : TypeSymbol} (hname : s.type? name = some symbol) :
    symbol.decl.name = name ∧ InFile files symbol.file (.typeDecl symbol.decl) := by
  obtain ⟨before, after, hsplit, -⟩ := List.lookup_eq_some_iff.1 hname
  exact h.type (by simp [hsplit])

theorem DeclaredIn.of_const? {name : String} {symbol : ConstSymbol} (hname : s.const? name = some symbol) :
    InFile files symbol.file (.constName name symbol.span) ∧
      ∀ e, symbol.value = some e → InFile files symbol.file (.expr e) := by
  obtain ⟨before, after, hsplit, -⟩ := List.lookup_eq_some_iff.1 hname
  exact h.const (by simp [hsplit])

end

/-! ## Definitions -/

section

variable {s t : Scope} {cause : Cause}

theorem defineType_eq_ok_iff {symbol : TypeSymbol} :
    s.defineType symbol = .ok t ↔
      ¬ s.isDeclared symbol.decl.name ∧ t = { s with types := (symbol.decl.name, symbol) :: s.types } := by
  simp only [defineType]
  split <;> grind

theorem defineType_eq_error_iff {symbol : TypeSymbol} :
    s.defineType symbol = .error cause ↔ s.isDeclared symbol.decl.name ∧ cause = .redeclared symbol.decl.name := by
  simp only [defineType]
  split <;> grind

theorem defineConst_eq_ok_iff {name : String} {symbol : ConstSymbol} :
    s.defineConst name symbol = .ok t ↔
      ¬ s.isDeclared name ∧ t = { s with consts := (name, symbol) :: s.consts } := by
  simp only [defineConst]
  split <;> grind

theorem defineConst_eq_error_iff {name : String} {symbol : ConstSymbol} :
    s.defineConst name symbol = .error cause ↔ s.isDeclared name ∧ cause = .redeclared name := by
  simp only [defineConst]
  split <;> grind

end

/-! ## Building a scope -/

namespace Building

/-- Whether all symbols and problems found so far are those of the files. -/
structure DeclaredIn (files : List SourceFile) (b : Building) : Prop where
  scope : b.scope.DeclaredIn files
  problems : ∀ e ∈ b.problems, e.2.ArisesIn files e.1

section

variable {files : List SourceFile} {b : Building} (h : b.DeclaredIn files) {file : Nat}
include h

theorem DeclaredIn.declare {name : String} {span : Span} {define : Scope → Except Cause Scope}
    (hok : ∀ t, define b.scope = .ok t → t.DeclaredIn files)
    (herror : ∀ cause, define b.scope = .error cause → Problem.ArisesIn files file ⟨cause, span⟩) :
    (b.declare file name span define).DeclaredIn files := by
  unfold Building.declare
  split
  · exact h
  · cases hdefine : define b.scope with
    | ok t => exact ⟨hok t hdefine, h.problems⟩
    | error cause =>
      refine ⟨h.scope, ?_⟩
      intro e he
      rcases List.mem_append.1 he with hold | hnew
      · exact h.problems e hold
      · obtain rfl := List.mem_singleton.1 hnew
        exact herror cause hdefine

theorem DeclaredIn.addType {d : TypeDecl} (hd : InFile files file (.typeDecl d)) :
    (addType file b d).DeclaredIn files := by
  refine h.declare ?_ ?_
  · intro t ht
    obtain ⟨-, rfl⟩ := defineType_eq_ok_iff.1 ht
    refine ⟨?_, h.scope.const⟩
    intro name symbol hmem
    rcases List.mem_cons.1 hmem with hnew | hold
    · cases hnew
      exact ⟨rfl, hd⟩
    · exact h.scope.type hold
  · intro cause hcause
    obtain ⟨-, rfl⟩ := defineType_eq_error_iff.1 hcause
    exact ⟨_, hd, .redeclaredType, rfl⟩

theorem DeclaredIn.addConst {entry : String × ConstSymbol} (hfile : entry.2.file = file)
    (hname : InFile files file (.constName entry.1 entry.2.span))
    (hvalue : ∀ e, entry.2.value = some e → InFile files file (.expr e)) :
    (addConst file b entry).DeclaredIn files := by
  subst hfile
  refine h.declare ?_ ?_
  · intro t ht
    obtain ⟨-, rfl⟩ := defineConst_eq_ok_iff.1 ht
    refine ⟨h.scope.type, ?_⟩
    intro name symbol hmem
    rcases List.mem_cons.1 hmem with hnew | hold
    · cases hnew
      exact ⟨hname, hvalue⟩
    · exact h.scope.const hold
  · intro cause hcause
    obtain ⟨-, rfl⟩ := defineConst_eq_error_iff.1 hcause
    exact ⟨_, hname, .redeclaredConst, rfl⟩

theorem DeclaredIn.addFile {f : SourceFile} (hf : files[file]? = some f) : (addFile b (f, file)).DeclaredIn files := by
  have himports : DeclaredIn files { b with scope := { b.scope with imports := b.scope.imports ++ [importsOf f] } } :=
    ⟨⟨h.scope.type, h.scope.const⟩, h.problems⟩
  -- the inner fold declares the types of the file, the outer one its constants
  refine List.foldlRecOn _ _ (List.foldlRecOn _ _ himports ?_) ?_
  · intro c hc d hd
    exact hc.addType ⟨f, hf, _, .type hd, .self⟩
  · intro c hc entry hentry
    obtain ⟨d, hd, hentry⟩ := List.mem_flatMap.1 hentry
    obtain ⟨⟨⟨name, span⟩, i⟩, hmem, rfl⟩ := List.mem_map.1 hentry
    have hroot := SourceFile.Root.const hd
    refine hc.addConst rfl ⟨f, hf, _, hroot, .name ?_ .self⟩ ?_
    · exact List.mem_of_getElem? (List.mem_zipIdx_iff_getElem?.1 hmem)
    · intro e he
      exact ⟨f, hf, _, hroot, .initial (List.mem_of_getElem? he) .self⟩

end

end Building

/-- The scope of a package and the redeclarations in it are those of its files. -/
theorem build_declaredIn (files : List SourceFile) : (build files).DeclaredIn files := by
  refine List.foldlRecOn _ _ ⟨⟨?_, ?_⟩, ?_⟩ ?_
  · intro name symbol hmem
    exact absurd hmem List.not_mem_nil
  · intro name symbol hmem
    exact absurd hmem List.not_mem_nil
  · intro e he
    exact absurd he List.not_mem_nil
  · rintro b hb ⟨f, file⟩ hmem
    exact hb.addFile (List.mem_zipIdx_iff_getElem?.1 hmem)

end Scope

/-! ## Struct literals -/

section

variable {st : StructType}

mutual

/-- The struct literals of a type are parts of it. -/
theorem TypeExpr.part_of_mem_structs : ∀ {t : TypeExpr}, st ∈ t.structs →
    (Construct.struct st).Part (.type t)
  | .struct lit, h => by
    rcases List.mem_cons.1 h with rfl | h
    · exact .literal .self
    · exact .literal (StructType.part_of_mem_inner h)
  | .named _ _ args _, h => by
    obtain ⟨a, ha, hpart⟩ := part_of_mem_structsOfAll h
    exact .argument ha hpart
  | .pointer e _, h => .pointer (TypeExpr.part_of_mem_structs (t := e) h)
  | .slice e _, h => .slice (TypeExpr.part_of_mem_structs (t := e) h)
  | .array _ e _, h => .element (TypeExpr.part_of_mem_structs (t := e) h)
  | .chan _ e _, h => .chan (TypeExpr.part_of_mem_structs (t := e) h)
  | .map k v _, h => by
    rcases List.mem_append.1 h with h | h
    · exact .key (TypeExpr.part_of_mem_structs h)
    · exact .value (TypeExpr.part_of_mem_structs h)
  | .func _, h | .interface _, h => absurd h List.not_mem_nil

private theorem part_of_mem_structsOfAll : ∀ {ts : List TypeExpr}, st ∈ structsOfAll ts →
    ∃ t ∈ ts, (Construct.struct st).Part (.type t)
  | [], h => absurd h List.not_mem_nil
  | t :: rest, h => by
    rcases List.mem_append.1 h with h | h
    · exact ⟨t, List.mem_cons_self .., TypeExpr.part_of_mem_structs h⟩
    · obtain ⟨u, hu, hpart⟩ := part_of_mem_structsOfAll h
      exact ⟨u, List.mem_cons_of_mem _ hu, hpart⟩

/-- The struct literals inside a struct literal are parts of it. -/
theorem StructType.part_of_mem_inner : ∀ {lit : StructType}, st ∈ lit.inner →
    (Construct.struct st).Part (.struct lit)
  | ⟨fields, _, _⟩, h => by
    obtain ⟨d, hd, hpart⟩ := part_of_mem_structsOfFields h
    exact .field hd hpart

private theorem part_of_mem_structsOfFields : ∀ {ds : List FieldDecl}, st ∈ structsOfFields ds →
    ∃ d ∈ ds, (Construct.struct st).Part (.type d.type)
  | [], h => absurd h List.not_mem_nil
  | ⟨names, type, tag, span⟩ :: rest, h => by
    rcases List.mem_append.1 h with h | h
    · exact ⟨_, List.mem_cons_self .., TypeExpr.part_of_mem_structs (t := type) h⟩
    · obtain ⟨d, hd, hpart⟩ := part_of_mem_structsOfFields h
      exact ⟨d, List.mem_cons_of_mem _ hd, hpart⟩

end

end

namespace Site

theorem part_of_mem_ofTypeDecl {file : Nat} {d : TypeDecl} {s : Site} (h : s ∈ ofTypeDecl file d) :
    s.file = file ∧ (Construct.struct s.type).Part (.type d.type) := by
  unfold ofTypeDecl at h
  split at h
  · next st htype =>
    rw [htype]
    rcases List.mem_cons.1 h with rfl | h
    · exact ⟨rfl, .literal .self⟩
    · obtain ⟨inner, hinner, rfl⟩ := List.mem_map.1 h
      exact ⟨rfl, .literal (StructType.part_of_mem_inner hinner)⟩
  · obtain ⟨inner, hinner, rfl⟩ := List.mem_map.1 h
    exact ⟨rfl, TypeExpr.part_of_mem_structs hinner⟩

/-- A site is a struct literal of the file it names. -/
theorem inFile_of_mem_collect {files : List SourceFile} {s : Site} (h : s ∈ collect files) :
    InFile files s.file (.struct s.type) := by
  obtain ⟨⟨f, file⟩, hfile, hs⟩ := List.mem_flatMap.1 h
  have hf := List.mem_zipIdx_iff_getElem?.1 hfile
  rcases List.mem_append.1 (List.mem_mergeSort.1 hs) with hs | hs
  · obtain ⟨d, hd, hs⟩ := List.mem_flatMap.1 hs
    obtain ⟨hfile, hpart⟩ := part_of_mem_ofTypeDecl hs
    rw [hfile]
    exact ⟨f, hf, _, .type hd, .declared hpart⟩
  · obtain ⟨l, hl, hs⟩ := List.mem_flatMap.1 hs
    rcases List.mem_cons.1 hs with rfl | hs
    · exact ⟨f, hf, _, .literal hl, .self⟩
    · obtain ⟨st, hst, rfl⟩ := List.mem_map.1 hs
      exact ⟨f, hf, _, .literal hl, StructType.part_of_mem_inner hst⟩

end Site

end StructPadding
