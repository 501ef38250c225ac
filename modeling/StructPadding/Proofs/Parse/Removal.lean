-- SUMMARY: A source without one of its functions is parsed as before, but for the struct literals in the function.
import StructPadding.Proofs.Parse.Literals
import StructPadding.Proofs.Parse.Parses
import StructPadding.Proofs.Parse.Surroundings

/-!
# Removal of skipped declarations

A declaration of functions or variables ends with a semicolon, and so does whatever stands in front of it. Without it
the rest of the file is parsed as before. What stands in front of it is followed up to the semicolon that it ends
with, and what comes behind it is followed in other surroundings. The struct literals that go missing have their
keywords in what was removed.
-/

namespace StructPadding.Parser

open Token (Kind Event Stream)

/-! ## Beginnings of files -/

/-- The state in front of tokens of a source. -/
def State.ofTokens (length : Nat) (ts : List Token) : State := ⟨⟨ts.map .ok, length⟩, 0, []⟩

/-- A file up to its first `n` declarations, where semicolons are counted among them. -/
def fileUpTo (g : Grammar) : Nat → Parser SourceFile
  | 0 => packageClause
  | n + 1 => do
    let file ← fileUpTo g n
    return (← declarations.turn g file).value

/-- Whether the tokens between others are a declaration at top level that is skipped: it begins with `func` or `var`
    behind a number of other declarations, and ends where skipping it ends. -/
def IsSkipped (length : Nat) (before skipped after : List Token) : Prop :=
  ∃ n file s t,
    let start := State.ofTokens length (before ++ skipped ++ after)
    let g := Grammar.ofDepth (start.remaining + 1)
    fileUpTo g n start = .ok file s ∧ s.stream.events = (skipped ++ after).map .ok ∧
      (s.kinds 0 = .keyword .func ∨ s.kinds 0 = .keyword .var) ∧
      skipDeclaration g s = .ok () t ∧ t.stream.events = after.map .ok

/-- Whether the keywords of struct literals are among tokens. -/
def KeywordsIn (ts : List Token) (ls : List LocalStruct) : Prop :=
  ∀ l ∈ ls, (⟨.keyword .struct, l.type.keyword⟩ : Token) ∈ ts

variable {g g' : Grammar} {free : Bool} {k : Pace} {α : Type} {p : Parser α} {P : α → Pace → Prop} {s s' t : State}
  {ts : List Token}

theorem steady_fileUpTo (n : Nat) : Steady g g' free k (fileUpTo g n) (fileUpTo g' n) fun _ _ => True := by
  induction n with
  | zero => exact .mono steady_packageClause fun _ _ _ => trivial
  | succ n ih => exact .bind ih fun file _ _ => .bind (steady_declarations_turn file) fun _ _ _ => .pure trivial

theorem closes_fileUpTo (hg : g.IsLocal) (n : Nat) {F : SourceFile → Prop} :
    Closes State.atEnd k (fileUpTo g n) F := by
  cases n with
  | zero => exact closes_packageClause hg
  | succ n => exact .bind hg (steady_fileUpTo n) fun file _ _ => .map (closes_declarations_turn hg file)

/-! ## Accounts of struct literals -/

/-- Whether a parser keeps only struct literals that it has found. -/
def Accounts (p : Parser α) : Prop := ∀ c : Cursor, Gives p c fun _ d => ∀ keyword, d.count keyword ≤ c.count keyword

theorem Derives.count_le {f : Form} {c d : Cursor} (h : Derives f c d) (keyword : Span) :
    d.count keyword ≤ c.count keyword := by
  rw [h.balanced keyword]
  exact Nat.le_add_left ..

theorem accounts_packageClause : Accounts packageClause := fun _ => gives_packageClause.mono fun _ _ h => h.count_le

section

variable (hg : g.Sound)
include hg

theorem accounts_skipDeclaration : Accounts (skipDeclaration g) := by
  refine fun c => (gives_skipDeclaration hg).mono ?_
  rintro _ e ⟨d, hd, hsemi⟩ keyword
  exact Nat.le_trans (Nat.le_of_eq (hsemi.count.resolve_left nofun keyword).symm) (hd.count_le keyword)

theorem accounts_declarations_turn (file : SourceFile) : Accounts (declarations.turn g file) := by
  have hdeclaration {c : Cursor} {α β : Type} {p : Parser α} {f : α → β} {F : α → Form}
      (hp : Gives p c fun a d => Derives (F a) c d) :
      Gives (p >>= fun a => pure (f a)) c fun _ d => ∀ keyword, d.count keyword ≤ c.count keyword :=
    hp.bind fun _ _ h => .pure h.count_le
  intro c
  apply gives_peek.bind
  rintro t c ⟨rfl, ht⟩
  split
  · exact .pure fun _ => Nat.le_refl _
  · next hkind =>
    apply (gives_advance_of (ht.symm.trans hkind) nofun).bind
    intro _ d hsemi
    exact .pure fun keyword => Nat.le_of_eq (hsemi.reads.count.resolve_left nofun keyword).symm
  · exact hdeclaration (gives_declaration (fun _ => []) fun _ _ => gives_importSpec)
  · exact hdeclaration (gives_declaration (fun decl => [decl]) fun _ _ => gives_typeDecl hg)
  · exact hdeclaration (gives_declaration (fun _ => []) fun before _ => gives_constDecl hg before)
  · exact (accounts_skipDeclaration hg c).bind fun _ _ h => .pure h
  · exact (accounts_skipDeclaration hg c).bind fun _ _ h => .pure h
  · exact gives_fail

theorem accounts_fileUpTo (n : Nat) : Accounts (fileUpTo g n) := by
  induction n with
  | zero => exact accounts_packageClause
  | succ n ih =>
    refine fun c => (ih c).bind fun file d hd => (accounts_declarations_turn hg file d).bind fun step e he => .pure ?_
    exact fun keyword => Nat.le_trans (he keyword) (hd keyword)

theorem accounts_declarations (file : SourceFile) : Accounts (declarations g file) := by
  refine fun c => gives_repeating_value (I := fun _ d => ∀ keyword, d.count keyword ≤ c.count keyword)
    (fun _ => Nat.le_refl _) fun file d hd => ?_
  exact (accounts_declarations_turn hg file d).mono fun _ _ he keyword => Nat.le_trans (he keyword) (hd keyword)

end

/-- A struct literal that is no longer to come behind tokens has its keyword among them. -/
theorem mem_of_count_literals_lt {events : List Event} {keyword : Span}
    (h : (Event.literals events).count keyword < (Event.literals (ts.map .ok ++ events)).count keyword) :
    (⟨.keyword .struct, keyword⟩ : Token) ∈ ts := by
  induction ts with
  | nil => exact absurd h (Nat.lt_irrefl _)
  | cons t ts ih =>
    rw [List.map_cons, List.cons_append, Event.literals, List.count_append] at h
    by_cases hlater : (Event.literals events).count keyword < (Event.literals (ts.map .ok ++ events)).count keyword
    · exact List.mem_cons_of_mem t (ih hlater)
    · have hhere : keyword ∈ Event.literal? (.ok t :: (ts.map .ok ++ events)) :=
        Option.mem_toList.1 (List.count_pos_iff.1 (by omega))
      unfold Event.literal? at hhere
      split at hhere
      · next heq =>
        obtain rfl := Option.mem_some_iff.1 hhere
        obtain ⟨rfl, -⟩ := by simpa using heq
        exact List.mem_cons_self
      · exact absurd hhere (Option.not_mem_none _)

/-- The keywords of what a parser keeps are among the tokens that it takes. -/
theorem Accounts.keywordsIn {a : α} {ls : List LocalStruct} (hp : Accounts p) (hres : p s = .ok a t)
    (hts : s.stream.events = ts.map .ok ++ t.stream.events) (hls : t.locals = s.locals ++ ls) : KeywordsIn ts ls := by
  intro l hl
  obtain ⟨d, hd, -, hcount⟩ := hp ⟨s.stream.events, s.locals, []⟩ s a t ⟨rfl, rfl⟩ hres
  have hkeyword : l.type.keyword ∈ (ls.flatMap LocalStruct.structs).map (·.keyword) :=
    List.mem_map_of_mem (List.mem_flatMap.2 ⟨l, hl, List.mem_cons_self⟩)
  have hpos := List.count_pos_iff.2 hkeyword
  have hle := hcount l.type.keyword
  simp only [Cursor.count, ← hd.events, ← hd.locals, hls, hts, List.flatMap_append, List.map_append, List.count_append,
    List.count_nil] at hle
  have hlt : (Event.literals t.stream.events).count l.type.keyword <
      (Event.literals (ts.map .ok ++ t.stream.events)).count l.type.keyword := by omega
  exact mem_of_count_literals_lt hlt

/-- Struct literals are kept behind those kept before. -/
theorem Steady.locals {a : α} (h : Steady g g true k p p P) (hg : g.IsLocal) (hs : s.kinds = k.kinds)
    (hres : p s = .ok a t) : ∃ ls, t.locals = s.locals ++ ls := by
  obtain ⟨ts, -, hst, -⟩ := (h.runs hg.consumes hs).of_ok hres
  let c : Surroundings := ⟨t.stream.events, t.stream.events, s.locals, s.locals, s.stream.length, s.stream.length⟩
  have hlevel : c.IsLevel := .inl ⟨rfl, rfl⟩
  have hrelates : c.Relates ts s s := ⟨hst.events, hst.events, rfl, rfl, [], by simp [c], by simp [c]⟩
  obtain ⟨t', -, hres', ht, -⟩ :=
    h.carries hg.consumes hlevel (hg.carries c hlevel) ts [] s s a t hrelates hs (fun _ => rfl) hres rfl
  obtain ⟨ls, hls, -⟩ := ht.locals
  exact ⟨ls, hls⟩

/-! ## Files -/

theorem wholeFile_eq_ok_iff {file : SourceFile} : wholeFile g s = .ok file t ↔
    ∃ clause u last v, packageClause s = .ok clause u ∧ declarations g clause u = .ok last v ∧
      file = { last with locals := v.locals, span := ⟨clause.span.start, v.lastStop⟩ } ∧
      t = { v with locals := [] } := by
  have hlast (clause last : SourceFile) (v : State) :
      (do
        let locals ← takeLocals
        return { last with locals, span := ⟨clause.span.start, (← get).lastStop⟩ } : Parser SourceFile) v =
        .ok { last with locals := v.locals, span := ⟨clause.span.start, v.lastStop⟩ } { v with locals := [] } := rfl
  constructor
  · intro h
    obtain ⟨clause, u, hclause, h⟩ := bind_eq_ok_iff.1 h
    obtain ⟨last, v, hdeclarations, h⟩ := bind_eq_ok_iff.1 h
    obtain ⟨rfl, rfl⟩ := EStateM.Result.ok.inj ((hlast clause last v).symm.trans h)
    exact ⟨clause, u, last, v, hclause, hdeclarations, rfl, rfl⟩
  · rintro ⟨clause, u, last, v, hclause, hdeclarations, rfl, rfl⟩
    exact bind_eq_ok_iff.2 ⟨clause, u, hclause, bind_eq_ok_iff.2 ⟨last, v, hdeclarations, hlast clause last v⟩⟩

/-- Only the end of the file ends the declarations, and it is not taken. -/
theorem declarations_turn_done {file last : SourceFile} (h : declarations.turn g file s = .ok (.done last) t) :
    last = file ∧ t = s := by
  have hyield {β : Type} {p : Parser β} {f : β → SourceFile} {u : State} :
      Ends (p >>= fun b => pure (ForInStep.yield (f b))) u
        (fun step t => ∀ last, step = .done last → last = file ∧ t = u) fun _ _ => True :=
    Ends.trivial.bind (fun _ _ _ => .pure nofun) fun _ _ h => h
  have hends : Ends (declarations.turn g file) s
      (fun step t => ∀ last, step = ForInStep.done last → last = file ∧ t = s) fun _ _ => True := by
    refine (ends_peekAt_takes 0 s).bind ?_ fun _ _ _ => trivial
    rintro a u ⟨rfl, -⟩
    split
    · exact .pure fun _ h => ⟨(ForInStep.done.inj h).symm, rfl⟩
    · exact hyield
    · exact hyield
    · exact hyield
    · exact hyield
    · exact hyield
    · exact hyield
    · exact .throw trivial
  exact hends.of_ok h last rfl

/-- The rest of a file is read from where its first declarations end. -/
theorem declarations_of_fileUpTo {n : Nat} {file : SourceFile} (hg : g.Consumes) (h : fileUpTo g n s = .ok file t) :
    ∃ clause u, packageClause s = .ok clause u ∧ declarations g clause u = declarations g file t := by
  induction n generalizing file t with
  | zero => exact ⟨file, t, h, rfl⟩
  | succ n ih =>
    obtain ⟨before, v, hbefore, h⟩ := bind_eq_ok_iff.1 h
    obtain ⟨step, w, hstep, h⟩ := bind_eq_ok_iff.1 h
    obtain ⟨rfl, rfl⟩ := pure_eq_ok_iff.1 h
    obtain ⟨clause, u, hclause, hrest⟩ := ih hbefore
    refine ⟨clause, u, hclause, hrest.trans ?_⟩
    cases step with
    | yield file => exact repeating_of_yield (IsLoop.declarations.advances hg) hstep
    | done file =>
      obtain ⟨rfl, rfl⟩ := declarations_turn_done hstep
      rfl

/-- A declaration that is skipped leaves the file as it is. -/
theorem declarations_of_skipDeclaration (file : SourceFile) (hg : g.Consumes)
    (hkind : s.kinds 0 = .keyword .func ∨ s.kinds 0 = .keyword .var) (h : skipDeclaration g s = .ok () t) :
    declarations g file s = declarations g file t := by
  have hnext : nextKind? s.stream.events = some (s.kinds 0) := by
    rcases hevents : s.stream.events with _ | ⟨_ | first, rest⟩ <;>
      simp_all [State.kinds, Cursor.kindAt, nextKind?]
  obtain ⟨first, hpeek, hfirst⟩ := peek_eq_ok hnext
  have hturn : declarations.turn g file s = .ok (.yield file) t := by
    refine bind_eq_ok_iff.2 ⟨first, s, hpeek, ?_⟩
    rw [← hfirst] at hkind
    rcases hkind with hkind | hkind <;> rw [hkind] <;> exact bind_eq_ok_iff.2 ⟨(), t, h, rfl⟩
  exact repeating_of_yield (IsLoop.declarations.advances hg) hturn

/-! ## Removal -/

section

variable {file : SourceFile} {before skipped after : List Token}

/-- What stands in front of a declaration is read in the same way without it. -/
theorem fileUpTo_removed {n length : Nat} (hg : g.IsLocal) (hsound : g.Sound)
    (h : fileUpTo g n (.ofTokens length (before ++ skipped ++ after)) = .ok file s)
    (hs : s.stream.events = (skipped ++ after).map .ok) (hmore : s.kinds 0 ≠ .eof) : KeywordsIn before s.locals ∧
      ∃ s', fileUpTo g n (.ofTokens length (before ++ after)) = .ok file s' ∧ s'.stream.events = after.map .ok ∧
        s'.stream.length = s.stream.length ∧ s'.locals = s.locals := by
  have hevents : (State.ofTokens length (before ++ skipped ++ after)).stream.events =
      before.map .ok ++ s.stream.events := by simp [State.ofTokens, hs]
  refine ⟨(accounts_fileUpTo hsound n).keywordsIn h hevents rfl, ?_⟩
  have hcloses (kinds : Nat → Kind) : Closes State.atEnd ⟨false, kinds⟩ (fileUpTo g n) fun _ => True :=
    closes_fileUpTo hg n
  obtain hend | ⟨ts, semi, hsemi, hst, hother⟩ := hcloses _ _ file s rfl h trivial
  · exact absurd hend hmore
  obtain rfl : ts ++ [semi] = before :=
    (List.map_inj_right fun _ _ => Except.ok.inj).1 (List.append_cancel_right (hst.events.symm.trans hevents))
  let c : Surroundings := ⟨s.stream.events, after.map .ok, [], [], length, length⟩
  have hstart : (c.behind semi).Relates ts (.ofTokens length (ts ++ [semi] ++ skipped ++ after))
      (.ofTokens length (ts ++ [semi] ++ after)) := by
    refine ⟨?_, ?_, rfl, rfl, [], rfl, rfl⟩
    · simp [State.ofTokens, hs, c, Surroundings.behind]
    · simp [State.ofTokens, c, Surroundings.behind]
  obtain ⟨s', hs', hrelates, -⟩ := hother c _ rfl hstart rfl
  obtain ⟨ls, hls, hls'⟩ := hrelates.locals
  exact ⟨s', hs', hrelates.events', hrelates.length'.trans hrelates.length.symm, hls'.trans hls.symm⟩

/-- What is kept of a declaration is found in it. -/
theorem locals_of_skipDeclaration (hg : g.IsLocal) (hsound : g.Sound) (h : skipDeclaration g s = .ok () t)
    (hs : s.stream.events = (skipped ++ after).map .ok) (ht : t.stream.events = after.map .ok) :
    t.stream.length = s.stream.length ∧ ∃ ls, t.locals = s.locals ++ ls ∧ KeywordsIn skipped ls := by
  have hsteady : Steady g g true ⟨false, s.kinds⟩ (skipDeclaration g) (skipDeclaration g) _ := steady_skipDeclaration
  obtain ⟨taken, l, hst, hl⟩ := (hsteady.runs hg.consumes rfl).of_ok h
  obtain ⟨ls, hls⟩ := hsteady.locals hg rfl h
  exact ⟨hst.length, ls, hls, (accounts_skipDeclaration hsound).keywordsIn h (by simp [hs, ht]) hls⟩

/-- The rest of a file is read in the same way whatever was taken and kept before. -/
theorem declarations_beside {last : SourceFile} (hg : g.IsLocal) (hsound : g.Sound)
    (h : declarations g file s = .ok last t) (hs : s.stream.events = after.map .ok)
    (hs' : s'.stream.events = after.map .ok) (hlength : s'.stream.length = s.stream.length) :
    ∃ t' ls, declarations g file s' = .ok last t' ∧ t.locals = s.locals ++ ls ∧ t'.locals = s'.locals ++ ls ∧
      KeywordsIn after ls := by
  have hsteady : Steady g g true ⟨false, s.kinds⟩ (declarations g file) (declarations g file) _ :=
    steady_declarations file
  obtain ⟨ts, l, hst, hl⟩ := (hsteady.runs hg.consumes rfl).of_ok h
  obtain ⟨taken, us, rfl, htaken, hus⟩ := List.map_eq_append_iff.1 (hs.symm.trans hst.events)
  let c : Surroundings := ⟨[], [], s.locals, s'.locals, s.stream.length, s.stream.length⟩
  have hlevel : c.IsLevel := .inl ⟨rfl, rfl⟩
  have hrelates : c.Relates (taken ++ us) s s' :=
    ⟨by simp [hs, c], by simp [hs', c], rfl, hlength, [], by simp [c], by simp [c]⟩
  obtain ⟨t', -, h', hrelates, -⟩ :=
    hsteady.carries hg.consumes hlevel (hg.carries c hlevel) _ us s s' last t hrelates rfl nofun h (by simp [hus, c])
  obtain ⟨ls, hls, hls'⟩ := hrelates.locals
  refine ⟨t', ls, h', hls, hls', fun l hl => List.mem_append_left us ?_⟩
  exact (accounts_declarations hsound file).keywordsIn h (by simp [hs, hus]) hls l hl

end

/-- Skipped code never leaks into declarations. A sequence of tokens that is parsed is also parsed without any
    declaration at top level that is skipped. The package, the imports, the types and the constants are the same, and
    of the struct literals kept beside them exactly those go missing that have their keywords in the declaration. -/
theorem sourceFile_without_skipped {length : Nat} {before skipped after : List Token} {file : SourceFile} {t : State}
    (hparse : sourceFile (.ofTokens length (before ++ skipped ++ after)) = .ok file t)
    (hskipped : IsSkipped length before skipped after) :
    ∃ file' t', sourceFile (.ofTokens length (before ++ after)) = .ok file' t' ∧ file'.package = file.package ∧
      file'.imports = file.imports ∧ file'.types = file.types ∧ file'.consts = file.consts ∧
      ∃ ls ms ns, file.locals = ls ++ ms ++ ns ∧ file'.locals = ls ++ ns ∧
        KeywordsIn before ls ∧ KeywordsIn skipped ms ∧ KeywordsIn after ns := by
  obtain ⟨n, front, s, u, hfront, hs, hkind, hskip, hu⟩ := hskipped
  have hlocal := Grammar.isLocal_ofDepth ((State.ofTokens length (before ++ skipped ++ after)).remaining + 1)
  have hsound := Grammar.sound_ofDepth ((State.ofTokens length (before ++ skipped ++ after)).remaining + 1)
  have hmore : s.kinds 0 ≠ .eof := by
    rcases hkind with hkind | hkind <;> simp [hkind]
  obtain ⟨hls, s', hfront', hs', hlength, hlocals⟩ := fileUpTo_removed hlocal hsound hfront hs hmore
  obtain ⟨hlength', ms, hms, hmskeywords⟩ := locals_of_skipDeclaration hlocal hsound hskip hs hu
  -- The run with the declaration, from its end on.
  obtain ⟨clause, v, last, w, hclause, hlast, rfl, rfl⟩ := wholeFile_eq_ok_iff.1 hparse
  obtain ⟨clause₁, v₁, hclause₁, hrest⟩ := declarations_of_fileUpTo hlocal.consumes hfront
  obtain ⟨rfl, rfl⟩ := EStateM.Result.ok.inj (hclause₁.symm.trans hclause)
  rw [hrest, declarations_of_skipDeclaration front hlocal.consumes hkind hskip] at hlast
  -- The run without it.
  obtain ⟨w', ns, hlast', hns, hns', hnskeywords⟩ :=
    declarations_beside hlocal hsound hlast hu hs' (hlength.trans hlength'.symm)
  obtain ⟨clause', v', hclause', hrest'⟩ := declarations_of_fileUpTo hlocal.consumes hfront'
  have hwhole := wholeFile_eq_ok_iff.2 ⟨clause', v', last, w', hclause', hrest'.trans hlast', rfl, rfl⟩
  have henough : (State.ofTokens length (before ++ after)).remaining + 1 ≤
      (State.ofTokens length (before ++ skipped ++ after)).remaining + 1 := by
    simp only [State.ofTokens, State.remaining, List.length_map, List.length_append]
    omega
  have hdepth := wholeFile_eq (Grammar.consumes_ofDepth _) (Grammar.agreeBelow_ofDepth henough) (Nat.lt_succ_self _)
  refine ⟨_, _, withGrammar_eq _ hdepth |>.trans hwhole, rfl, rfl, rfl, rfl, s.locals, ms, ns, ?_, ?_, hls, hmskeywords,
    hnskeywords⟩
  · exact hns.trans (congrArg (· ++ ns) hms)
  · exact hns'.trans (congrArg (· ++ ns) hlocals)

/-! ## A function between declarations -/

/-- Tokens of the given kinds, of one byte each. -/
def tokensAt (start : Nat) (kinds : List Kind) : List Token :=
  (kinds.zipIdx start).map fun (kind, n) => ⟨kind, ⟨n, n + 1⟩⟩

/-- A package clause, and `type U struct {};` behind it. -/
def frontTokens : List Token :=
  tokensAt 0 [.keyword .package, .identifier "p", .symbol .semi, .keyword .type, .identifier "U", .keyword .struct,
    .symbol .lBrace, .symbol .rBrace, .symbol .semi]

/-- The function `func f() { type T struct {}; };`. -/
def functionTokens : List Token :=
  tokensAt 9 [.keyword .func, .identifier "f", .symbol .lParen, .symbol .rParen, .symbol .lBrace, .keyword .type,
    .identifier "T", .keyword .struct, .symbol .lBrace, .symbol .rBrace, .symbol .semi, .symbol .rBrace, .symbol .semi]

/-- The variable `var v struct {};`. -/
def backTokens : List Token :=
  tokensAt 22 [.keyword .var, .identifier "v", .keyword .struct, .symbol .lBrace, .symbol .rBrace, .symbol .semi]

/-- The tokens still to come, without problems among them. -/
def State.tokens (s : State) : List (Option Token) := s.stream.events.map Except.toOption

theorem State.events_eq_of_tokens {s : State} {ts : List Token} (h : s.tokens = ts.map some) :
    s.stream.events = ts.map .ok := by
  have htoken (e : Event) (t : Token) (he : e.toOption = some t) : e = .ok t := by
    cases e with
    | error => cases he
    | ok u => exact congrArg _ (Option.some.inj he)
  unfold State.tokens at h
  generalize s.stream.events = events at h ⊢
  induction events generalizing ts with
  | nil => rw [List.map_eq_nil_iff.1 h.symm, List.map_nil]
  | cons e es ih =>
    cases ts with
    | nil => cases h
    | cons t ts =>
      obtain ⟨he, hes⟩ := List.cons.inj h
      rw [htoken e t he, ih hes, List.map_cons]

theorem isSkipped_functionTokens : IsSkipped 28 frontTokens functionTokens backTokens := by
  have hstates : seen? (fun _ s => (s.tokens, s.kinds 0, seen? (fun _ t => t.tokens) (skipDeclaration (.ofDepth 29) s)))
      (fileUpTo (.ofDepth 29) 1 (.ofTokens 28 (frontTokens ++ functionTokens ++ backTokens))) =
      some ((functionTokens ++ backTokens).map some, .keyword .func, some (backTokens.map some)) := by decide +kernel
  obtain ⟨file, s, hfront, hlook⟩ := exists_of_seen? hstates
  obtain ⟨hs, hlook⟩ := Prod.mk.inj hlook
  obtain ⟨hkind, hskip⟩ := Prod.mk.inj hlook
  obtain ⟨_, t, hskip, ht⟩ := exists_of_seen? hskip
  exact ⟨1, file, s, t, hfront, State.events_eq_of_tokens hs, .inl hkind, hskip, State.events_eq_of_tokens ht⟩

theorem sourceFile_without_skipped_function :
    IsSkipped 28 frontTokens functionTokens backTokens ∧
      ∃ file t, sourceFile (.ofTokens 28 (frontTokens ++ functionTokens ++ backTokens)) = .ok file t ∧
        file.locals.map (·.name) = [some "T", none] ∧
        ∃ file' t', sourceFile (.ofTokens 28 (frontTokens ++ backTokens)) = .ok file' t' ∧
          file'.package = file.package ∧ file'.imports = file.imports ∧ file'.types = file.types ∧
          file'.consts = file.consts ∧ ∃ ls ms ns, file.locals = ls ++ ms ++ ns ∧ file'.locals = ls ++ ns ∧
            KeywordsIn frontTokens ls ∧ KeywordsIn functionTokens ms ∧ KeywordsIn backTokens ns := by
  have hlocals : seen? (fun file _ => file.locals.map (·.name))
      (sourceFile (.ofTokens 28 (frontTokens ++ functionTokens ++ backTokens))) = some [some "T", none] := by
    decide +kernel
  obtain ⟨file, t, hparse, hnames⟩ := exists_of_seen? hlocals
  exact ⟨isSkipped_functionTokens, file, t, hparse, hnames, sourceFile_without_skipped hparse isSkipped_functionTokens⟩

end StructPadding.Parser
