-- SUMMARY: One resolver that is asked for many struct literals in turn, and when it calls a type recursive.
import StructPadding.Proofs.Package.Settled

/-!
# Calls

A resolver is asked for one struct literal after the other, and goes on with what it remembers, also after a failure.
Whatever it was asked before, it finds the fields that a struct literal unfolds to, or it fails with right.
-/

namespace StructPadding

/-! ## Sites as parts -/

namespace Site

/-- The struct literal of a site, with the type parameters around it standing for themselves. -/
def part (s : Site) : Part := ⟨.site s.file s.params false, .struct s.type⟩

/-- Whether a site bears the name without being what the package declares under it, as a type that is declared in a
    function may. -/
def Namesake (s : Site) (scope : Scope) (name : String) : Prop :=
  s.name = some name ∧ ¬ ∃ symbol, scope.type? name = some symbol ∧ symbol.part = s.part

end Site

namespace Resolver

/-! ## A sequence of calls -/

/-- Whether a site fails in a given way can be found out. -/
instance decidableEqError (x : Except Unresolved (List Field)) (e : Unresolved) : Decidable (x = .error e) :=
  match x with
  | .ok _ => isFalse nofun
  | .error f => if h : f = e then isTrue (congrArg _ h) else isFalse fun heq => h (Except.error.inj heq)

section

variable (scope : Scope) (m : Machine)

/-- The fields of a site, or why there are none. -/
def outcome (r : Resolver) (s : Site) : Except Unresolved (List Field) :=
  match struct scope m s r with
  | .ok fields _ => .ok fields
  | .error e _ => .error e

/-- The resolver that a call leaves behind. -/
def next (r : Resolver) (s : Site) : Resolver :=
  match struct scope m s r with
  | .ok _ t | .error _ t => t

/-- The resolver that a sequence of calls leaves behind. -/
def after (calls : List Site) : Resolver := calls.foldl (next scope m) fresh

end

section

variable {scope : Scope} {m : Machine}

/-- A site has its own name in progress, which leads to it, unless the package declares something else under it. -/
theorem accounted_name {s : Site} {name : String} (h : s.name = some name) :
    Accounted scope (s.Namesake scope) [name] s.part := by
  intro name' hmem
  obtain rfl := List.mem_singleton.1 hmem
  by_cases hsame : ∃ symbol, scope.type? name' = some symbol ∧ symbol.part = s.part
  · obtain ⟨symbol, htype, hpart⟩ := hsame
    exact .inr ⟨symbol, htype, hpart ▸ Scope.leads_part⟩
  · exact .inl ⟨h, hsame⟩

theorem ends_struct_iff {s : Site} {r : Resolver} {Q : List Field → Resolver → Prop}
    {E : Unresolved → Resolver → Prop} :
    Ends (struct scope m s) r Q E ↔
      match r.outcome scope m s with
      | .ok fields => Q fields (r.next scope m s)
      | .error e => E e (r.next scope m s) := by
  simp only [Ends, outcome, next]
  split <;> simp_all

/-- Two calls that end alike have the same outcome, unless the first one fails as it need not. -/
theorem outcome_of_alike {s s' : Site} {l r : Resolver} {Q : List Field → Resolver → Resolver → Prop}
    {F : Unresolved → Prop} (h : Alike (struct scope m s) (struct scope m s') l r Q F) :
    r.outcome scope m s' = l.outcome scope m s ∨ ∃ e, l.outcome scope m s = .error e ∧ F e := by
  simp only [Alike] at h
  simp only [outcome]
  cases hl : struct scope m s l <;> cases hr : struct scope m s' r
  all_goals rw [hl, hr] at h
  · left
    rw [h.1]
  · exact h.elim
  · exact .inr ⟨_, rfl, h⟩
  · rcases h with rfl | hfails
    · exact .inl rfl
    · exact .inr ⟨_, rfl, hfails⟩

variable {files : List SourceFile} (hscope : scope.DeclaredIn files) {r : Resolver}
include hscope

/-- A site is settled, or fails with right. Only its own name is on the stack before. -/
theorem faithful_struct (s : Site) (hr : r.Sound scope m) (hidle : r.resolving = []) :
    Ends (struct scope m s) r
      (fun fields t => t.Sound scope m ∧ r.Extends t ∧ scope.Settles m s.part (.struct fields) ∧
        r.Learns t (Needs scope s.part))
      (fun e t => t.Sound scope m ∧ r.Extends t ∧ Fails scope m (s.Namesake scope) s.part e) := by
  have hfields {stack} (h : Accounted scope (s.Namesake scope) stack s.part) :=
    faithful_structWith (faithful_namesIn hscope (faithful_declared (m := m) hscope scope.types.length idle_le)
      (.site s.file s.params s.isLocal)) s.type h
  unfold struct structOr structIn
  split
  · next name hname =>
    have hrun := hfields (accounted_name hname) { r with resolving := name :: r.resolving } hr (by simp [hidle])
    refine ends_within (hrun.mono ?_ ?_)
    · rintro fields t ⟨ht, hextends, hrest⟩
      exact ⟨ht, hextends.within, hrest⟩
    · rintro e t ⟨ht, hextends, hfails⟩
      exact ⟨ht, hextends.within, hfails⟩
  · exact hfields (fun _ hmem => absurd hmem List.not_mem_nil) r hr hidle

/-- Calls keep a resolver sound, whether they succeed or fail. -/
theorem sound_after (calls : List Site) :
    (after scope m calls).Sound scope m ∧ (after scope m calls).resolving = [] := by
  refine List.foldlRecOn calls _ (motive := fun r : Resolver => r.Sound scope m ∧ r.resolving = [])
    ⟨sound_fresh, rfl⟩ ?_
  rintro r ⟨hr, hidle⟩ s -
  have hstruct := ends_struct_iff.1 (faithful_struct hscope s hr hidle)
  split at hstruct <;> exact ⟨hstruct.1, hstruct.2.1.resolving.trans hidle⟩

/-- Whatever was called before, a site that is resolved is settled to its fields. -/
theorem settles_of_outcome {calls : List Site} {s : Site} {fields : List Field}
    (h : (after scope m calls).outcome scope m s = .ok fields) : scope.Settles m s.part (.struct fields) := by
  obtain ⟨hr, hidle⟩ := sound_after (m := m) hscope calls
  have hstruct := ends_struct_iff.1 (faithful_struct hscope s hr hidle)
  rw [h] at hstruct
  exact hstruct.2.2.1

/-- Whatever was called before, a site that is not resolved fails with right. -/
theorem fails_of_outcome {calls : List Site} {s : Site} {e : Unresolved}
    (h : (after scope m calls).outcome scope m s = .error e) : Fails scope m (s.Namesake scope) s.part e := by
  obtain ⟨hr, hidle⟩ := sound_after (m := m) hscope calls
  have hstruct := ends_struct_iff.1 (faithful_struct hscope s hr hidle)
  rw [h] at hstruct
  exact hstruct.2.2

end

end Resolver

/-! ## Recursive types -/

/-- A declared type is called recursive where it is used, and contains itself by value, so that the site has no finite
    unfolding; or it holds one of its own parameters, whose arguments were followed to another use of the type; or
    the site has the name of a type that it is not. -/
theorem recursiveType_cause (files : List SourceFile) (m : Machine) (calls : List Site) (s : Site) {name : String}
    {span : Span} (h : (Resolver.after (Scope.build files).scope m calls).outcome (Scope.build files).scope m s =
      .error (.invalid ⟨.recursiveType name, span⟩)) :
    ∃ symbol, (Scope.build files).scope.type? name = some symbol ∧ (Scope.build files).scope.Uses s.part symbol ∧
      ((Scope.build files).scope.Recursive symbol ∧ ¬ (Scope.build files).scope.Finite s.part ∨
        (Scope.build files).scope.HoldsParameter symbol ∨ s.Namesake (Scope.build files).scope name) := by
  rcases Resolver.fails_of_outcome (Scope.build_declaredIn files).scope h with
    ⟨symbol, span', hcause, htype, huse, hwhy⟩ | ⟨hcalm, -⟩
  · cases hcause
    refine ⟨symbol, htype, huse, ?_⟩
    rcases hwhy with hnamesake | hrecursive | hparam
    · exact .inr (.inr hnamesake)
    · exact .inl ⟨hrecursive, fun hfinite => hfinite.not_recursive huse hrecursive⟩
    · exact .inr (.inl hparam)
  · cases hcalm

/-- A struct that is held by what it holds. -/
def entwinedSite : Site :=
  ⟨0, some "A", [], false, ⟨[⟨["b"], .named none "B" [] ⟨27, 28⟩, none, ⟨25, 28⟩⟩], ⟨17, 23⟩, ⟨17, 30⟩⟩⟩

/-- A struct that holds an array of words, under a second name for them. -/
def renamedSite : Site :=
  ⟨0, some "C", [], false, ⟨[⟨["d"], .array (.int 2 ⟨73, 74⟩) (.named none "D" [] ⟨75, 76⟩) ⟨72, 76⟩, none, ⟨70, 76⟩⟩],
    ⟨62, 68⟩, ⟨62, 78⟩⟩⟩

/-- A file that declares both. -/
def entwinedFile : SourceFile where
  package := "p"
  imports := []
  types := [
    ⟨"A", [], false, .struct entwinedSite.type, ⟨15, 30⟩⟩,
    ⟨"B", [], false,
      .struct ⟨[⟨["a"], .array (.int 1 ⟨49, 50⟩) (.named none "A" [] ⟨51, 52⟩) ⟨48, 52⟩, none, ⟨46, 52⟩⟩], ⟨38, 44⟩,
        ⟨38, 54⟩⟩, ⟨36, 54⟩⟩,
    ⟨"C", [], false, .struct renamedSite.type, ⟨60, 78⟩⟩,
    ⟨"D", [], true, .named none "int8" [] ⟨88, 92⟩, ⟨84, 92⟩⟩]
  consts := []
  locals := []
  span := ⟨0, 93⟩

theorem recursiveType_cause_entwined :
    (Resolver.after (Scope.build [entwinedFile]).scope .amd64 [entwinedSite]).outcome
        (Scope.build [entwinedFile]).scope .amd64 entwinedSite = .error (.invalid ⟨.recursiveType "A", ⟨51, 52⟩⟩) ∧
      ∃ symbol, (Scope.build [entwinedFile]).scope.type? "A" = some symbol ∧
        (Scope.build [entwinedFile]).scope.Uses entwinedSite.part symbol ∧
        ((Scope.build [entwinedFile]).scope.Recursive symbol ∧
            ¬ (Scope.build [entwinedFile]).scope.Finite entwinedSite.part ∨
          (Scope.build [entwinedFile]).scope.HoldsParameter symbol ∨
          entwinedSite.Namesake (Scope.build [entwinedFile]).scope "A") := by
  have h : (Resolver.after (Scope.build [entwinedFile]).scope .amd64 [entwinedSite]).outcome
      (Scope.build [entwinedFile]).scope .amd64 entwinedSite =
        .error (.invalid ⟨.recursiveType "A", ⟨51, 52⟩⟩) := by decide +kernel
  exact ⟨h, recursiveType_cause [entwinedFile] .amd64 [entwinedSite] entwinedSite h⟩

/-- A struct with a type that is instantiated with an instance of itself. -/
def nestedSite : Site :=
  ⟨0, some "S", [], false,
    ⟨[⟨["x"], .named none "G" [.named none "G" [.named none "int" [] ⟨59, 62⟩] ⟨57, 63⟩] ⟨55, 64⟩, none, ⟨53, 64⟩⟩],
      ⟨45, 51⟩, ⟨45, 66⟩⟩⟩

/-- The declaration of a struct that holds its parameter. -/
def boxDecl : TypeDecl :=
  ⟨"G", ["T"], false,
    .struct ⟨[⟨["v"], .named none "T" [] ⟨34, 35⟩, none, ⟨32, 35⟩⟩], ⟨24, 30⟩, ⟨24, 37⟩⟩, ⟨15, 37⟩⟩

/-- A file that declares both. -/
def nestedFile : SourceFile where
  package := "p"
  imports := []
  types := [boxDecl, ⟨"S", [], false, .struct nestedSite.type, ⟨43, 66⟩⟩]
  consts := []
  locals := []
  span := ⟨0, 67⟩

/-- A box has the shape of a struct with one field. -/
theorem unfolds_box {m : Machine} {env : Env} {arg : TypeExpr} {span : Span} {shape : Shape}
    (henv : env.binding "G" = .free) (harg : (Scope.build [nestedFile]).scope.Unfolds m ⟨env, arg⟩ shape) :
    (Scope.build [nestedFile]).scope.Unfolds m ⟨env, .named none "G" [arg] span⟩ (.struct [⟨"v", shape⟩]) := by
  have htype : (Scope.build [nestedFile]).scope.type? "G" = some ⟨0, boxDecl⟩ := by rfl
  refine .declared henv htype rfl (.struct (fun _ => shape) fun d hd => ?_)
  obtain rfl := List.mem_singleton.1 hd
  exact .argument rfl harg

theorem unfolds_nestedSite (m : Machine) : (Scope.build [nestedFile]).scope.Unfolds m nestedSite.part
    (.struct [⟨"x", .struct [⟨"v", .struct [⟨"v", Library.int m⟩]⟩]⟩]) := by
  refine .struct (fun _ => .struct [⟨"v", .struct [⟨"v", Library.int m⟩]⟩]) fun d hd => ?_
  obtain rfl := List.mem_singleton.1 hd
  have hnone : (Scope.build [nestedFile]).scope.type? "int" = none := by rfl
  exact unfolds_box rfl (unfolds_box rfl (.predeclared rfl hnone rfl))

/-- A type may be called recursive although the site has a finite unfolding. -/
theorem not_all_recursiveType_infinite :
    ¬ ∀ (files : List SourceFile) (m : Machine) (s : Site) (name : String) (span : Span), s ∈ Site.collect files →
      Resolver.fresh.outcome (Scope.build files).scope m s = .error (.invalid ⟨.recursiveType name, span⟩) →
        ¬ (Scope.build files).scope.Finite s.part := by
  intro hall
  refine hall [nestedFile] .amd64 nestedSite "G" ⟨57, 63⟩ ?_ (by decide +kernel) (unfolds_nestedSite .amd64).finite
  simp [Site.collect, Site.ofFile, Site.ofTypeDecl, nestedFile, nestedSite]

end StructPadding
