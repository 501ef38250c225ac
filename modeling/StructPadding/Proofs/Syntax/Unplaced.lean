-- SUMMARY: Types, expressions and declarations without their places.
import StructPadding.Syntax.File

/-!
# Unplaced

Types and expressions that differ in their places alone are written in the same way. Putting the same span everywhere
makes them equal. So it is with the declarations of a file.
-/

namespace StructPadding

/-! ## Expressions -/

namespace Expr

/-- The expression without its places. -/
def unplaced : Expr → Expr
  | .int v _ => .int v default
  | .name package n _ => .name package n default
  | .iota _ => .iota default
  | .unary op x _ => .unary op x.unplaced default
  | .binary op l r _ => .binary op l.unplaced r.unplaced default
  | .convert x _ => .convert x.unplaced default
  | .other _ => .other default

@[simp] theorem unplaced_withSpan (e : Expr) (s : Span) : (e.withSpan s).unplaced = e.unplaced := by cases e <;> rfl

@[simp] theorem isName_unplaced (e : Expr) : e.unplaced.isName = e.isName := by cases e <;> rfl

end Expr

/-! ## Types -/

mutual

/-- The type without its places. -/
def TypeExpr.unplaced : TypeExpr → TypeExpr
  | .named package name args _ => .named package name (unplacedTypes args) default
  | .pointer e _ => .pointer e.unplaced default
  | .slice e _ => .slice e.unplaced default
  | .array n e _ => .array n.unplaced e.unplaced default
  | .map k v _ => .map k.unplaced v.unplaced default
  | .chan direction e _ => .chan direction e.unplaced default
  | .func _ => .func default
  | .interface _ => .interface default
  | .struct st => .struct st.unplaced

def unplacedTypes : List TypeExpr → List TypeExpr
  | [] => []
  | t :: rest => t.unplaced :: unplacedTypes rest

/-- The struct type without its places. -/
def StructType.unplaced : StructType → StructType
  | ⟨fields, _, _⟩ => ⟨unplacedFields fields, default, default⟩

def unplacedFields : List FieldDecl → List FieldDecl
  | [] => []
  | f :: rest => f.unplaced :: unplacedFields rest

/-- The field without its places. -/
def FieldDecl.unplaced : FieldDecl → FieldDecl
  | ⟨names, type, tag, _⟩ => ⟨names, type.unplaced, tag, default⟩

end

theorem unplacedTypes_eq_map (ts : List TypeExpr) : unplacedTypes ts = ts.map TypeExpr.unplaced := by
  induction ts with
  | nil => rfl
  | cons t ts ih => simp only [unplacedTypes, ih, List.map_cons]

theorem unplacedFields_eq_map (fs : List FieldDecl) : unplacedFields fs = fs.map FieldDecl.unplaced := by
  induction fs with
  | nil => rfl
  | cons f fs ih => simp only [unplacedFields, ih, List.map_cons]

/-- The names of a field do not depend on places. -/
theorem FieldDecl.fieldNames_unplaced (f : FieldDecl) : f.unplaced.fieldNames = f.fieldNames := by
  obtain ⟨names, type, tag, span⟩ := f
  cases type with
  | pointer e => cases e <;> rfl
  | _ => rfl

mutual

/-- The struct literals inside a type do not depend on places. -/
theorem TypeExpr.structs_unplaced : ∀ t : TypeExpr, t.unplaced.structs = t.structs.map StructType.unplaced
  | .struct st => by
    rw [TypeExpr.unplaced, TypeExpr.structs, TypeExpr.structs, List.map_cons, StructType.inner_unplaced st]
  | .named _ _ args _ => structsOfAll_unplaced args
  | .pointer e _ | .slice e _ | .array _ e _ | .chan _ e _ => TypeExpr.structs_unplaced e
  | .map k v _ => by
    rw [TypeExpr.unplaced, TypeExpr.structs, TypeExpr.structs, List.map_append, TypeExpr.structs_unplaced k,
      TypeExpr.structs_unplaced v]
  | .func _ | .interface _ => rfl

private theorem structsOfAll_unplaced :
    ∀ ts : List TypeExpr, structsOfAll (unplacedTypes ts) = (structsOfAll ts).map StructType.unplaced
  | [] => rfl
  | t :: rest => by
    rw [unplacedTypes, structsOfAll, structsOfAll, List.map_append, TypeExpr.structs_unplaced t,
      structsOfAll_unplaced rest]

theorem StructType.inner_unplaced : ∀ st : StructType, st.unplaced.inner = st.inner.map StructType.unplaced
  | ⟨fields, _, _⟩ => structsOfFields_unplaced fields

private theorem structsOfFields_unplaced :
    ∀ fs : List FieldDecl, structsOfFields (unplacedFields fs) = (structsOfFields fs).map StructType.unplaced
  | [] => rfl
  | f :: rest => by
    rw [unplacedFields, structsOfFields, structsOfFields, List.map_append, FieldDecl.structs_unplaced f,
      structsOfFields_unplaced rest]

private theorem FieldDecl.structs_unplaced :
    ∀ f : FieldDecl, f.unplaced.structs = f.structs.map StructType.unplaced
  | ⟨_, type, _, _⟩ => TypeExpr.structs_unplaced type

end

/-! ## Declarations -/

/-- The type declaration without its places. -/
def TypeDecl.unplaced (d : TypeDecl) : TypeDecl := { d with type := d.type.unplaced, span := default }

/-- The line of a constant declaration without its places. -/
def ConstDecl.unplaced (d : ConstDecl) : ConstDecl where
  names := d.names.map fun n => (n.1, default)
  values := d.values.map Expr.unplaced
  iota := d.iota
  span := default

/-- The struct literal of a function without its places. -/
def LocalStruct.unplaced (l : LocalStruct) : LocalStruct := { l with type := l.type.unplaced }

end StructPadding
