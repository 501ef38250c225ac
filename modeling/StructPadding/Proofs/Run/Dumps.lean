-- SUMMARY: What dumps change: never what is reported, and the problem of a file only where it has two to choose from.
import StructPadding.Proofs.Parse.Progress
import StructPadding.Proofs.Run.Grouping
import StructPadding.Proofs.Token.Boundary

/-!
# Dumps

The dump of the tokens of a file reads the file to its end before it is parsed, and the file is not parsed if that meets
a problem. Parsing meets the same problem as long as it fails over none of its own. So dumps leave every file that can
be parsed alone; a file that cannot be parsed has another problem with the dump than without it exactly if the parser
has a problem of its own, and a lexical one is left.
-/

namespace StructPadding

/-! ## Problems of the text -/

theorem mem_of_mapM_id_eq_error {ε α : Type} {es : List (Except ε α)} {p : ε} (h : es.mapM id = .error p) :
    Except.error p ∈ es := by
  induction es with
  | nil => cases h
  | cons e es ih =>
    rw [List.mapM_cons] at h
    cases e with
    | error q =>
      obtain rfl : q = p := Except.error.inj h
      exact List.mem_cons_self ..
    | ok a =>
      cases hes : es.mapM id with
      | error q =>
        rw [hes] at h
        obtain rfl : q = p := Except.error.inj h
        exact List.mem_cons_of_mem _ (ih hes)
      | ok as =>
        rw [hes] at h
        cases h

/-- Whether an event is a token, or a problem of the text itself. -/
def Token.Event.IsLexical : Token.Event → Prop
  | .ok _ => True
  | .error p => p.stage = .lexer

/-- What taking tokens meets is a problem of the text itself. -/
theorem stage_of_tokenize {source : String} {p : Problem} (h : Token.tokenize source = .error p) : p.stage = .lexer := by
  have hread : (Token.Stream.ofSource source).events.mapM id = .error p := by
    unfold Token.tokenize Token.Stream.tokens at h
    cases hread : (Token.Stream.ofSource source).events.mapM id with
    | error q =>
      rw [hread] at h
      exact h
    | ok ts =>
      rw [hread] at h
      cases h
  exact Token.Event.of_mem_ofLexemes (P := Token.Event.IsLexical) trivial (fun _ _ => ⟨fun _ => trivial, rfl⟩)
    (mem_of_mapM_id_eq_error hread)

/-- A source that can be parsed consists of tokens. -/
theorem tokenize_of_parse {source : String} {file : SourceFile} (h : SourceFile.parse source = .ok file) :
    ∃ ts, Token.tokenize source = .ok ts := by
  obtain ⟨t, hres⟩ := SourceFile.parse_eq_ok_iff.1 h
  obtain ⟨-, ts, -, hevents, -⟩ := Parser.derives_of_sourceFile hres
  exact ⟨_, Token.tokenize_of_events hevents⟩

/-- A problem of the text over which parsing fails is what taking tokens meets. -/
theorem tokenize_of_parse_error {source : String} {e : Problem} (h : SourceFile.parse source = .error e)
    (hstage : e.stage = .lexer) : Token.tokenize source = .error e := by
  obtain ⟨t, hres⟩ := SourceFile.parse_eq_error_iff.1 h
  exact Parser.tokenize_of_isFirst (((Parser.ends_sourceFile_takes _).of_error hres).lexical hstage)

/-- Whether a text has a lexical problem, and parsing it fails over another one. -/
structure IsDisputed (text : String) (lexical parsing : Problem) : Prop where
  tokenize_eq : Token.tokenize text = .error lexical
  parse_eq : SourceFile.parse text = .error parsing
  stage_ne : parsing.stage ≠ .lexer

theorem IsDisputed.ne {text : String} {p e : Problem} (h : IsDisputed text p e) : p ≠ e := fun heq =>
  h.stage_ne (heq ▸ stage_of_tokenize h.tokenize_eq)

namespace Run

variable {o o' : LintOptions} {f : SourceText} {file : SourceFile} {p e : Problem}

/-! ## Parsing a file -/

theorem parseFile_quiet (h : o.dumpTokens = false) (f : SourceText) : (parseFile o f).2 = SourceFile.parse f.text := by
  simp only [parseFile, h]
  cases SourceFile.parse f.text <;> rfl

theorem parseFile_dumped (h : o.dumpTokens = true) (f : SourceText) :
    (parseFile o f).2 = (Token.tokenize f.text).bind fun _ => SourceFile.parse f.text := by
  simp only [parseFile, h, tokenDump, Token.dump]
  cases Token.tokenize f.text <;> cases SourceFile.parse f.text <;> rfl

/-- A file that can be parsed is found with every dump. -/
theorem parseFile_eq_ok_iff : (parseFile o f).2 = .ok file ↔ SourceFile.parse f.text = .ok file := by
  cases hdump : o.dumpTokens with
  | false => rw [parseFile_quiet hdump]
  | true =>
    rw [parseFile_dumped hdump]
    constructor
    · intro h
      cases htokens : Token.tokenize f.text with
      | error p =>
        rw [htokens] at h
        cases h
      | ok ts =>
        rw [htokens] at h
        exact h
    · intro h
      obtain ⟨ts, hts⟩ := tokenize_of_parse h
      rw [hts]
      exact h

theorem parseFile_of_isDisputed (h : IsDisputed f.text p e) (o : LintOptions) :
    (parseFile o f).2 = .error (if o.dumpTokens then p else e) := by
  cases hdump : o.dumpTokens with
  | false =>
    rw [parseFile_quiet hdump, h.parse_eq]
    rfl
  | true =>
    rw [parseFile_dumped hdump, h.tokenize_eq]
    rfl

/-- A file with one problem only has it with every dump. -/
theorem parseFile_of_not_isDisputed (h : ¬ ∃ p e, IsDisputed f.text p e) (o : LintOptions) :
    (parseFile o f).2 = SourceFile.parse f.text := by
  cases hparse : SourceFile.parse f.text with
  | ok file => exact parseFile_eq_ok_iff.2 hparse
  | error e =>
    cases hdump : o.dumpTokens with
    | false => rw [parseFile_quiet hdump, hparse]
    | true =>
      rw [parseFile_dumped hdump, hparse]
      cases htokens : Token.tokenize f.text with
      | ok ts => rfl
      | error p =>
        have hstage : e.stage = .lexer := by
          by_contra hne
          exact h ⟨p, e, htokens, hparse, hne⟩
        obtain rfl := Except.error.inj (htokens.symm.trans (tokenize_of_parse_error hparse hstage))
        rfl

/-- Dumps do not change the file that is found, and the dump of the file that has been parsed changes nothing. The
    problem that is found is the same with and without dumps exactly if the parser has no problem of its own in a text
    that has a lexical one as well; else the dump of the tokens finds the lexical problem instead. -/
theorem parseFile_dumps (f : SourceText) :
    (∀ o file, (parseFile o f).2 = .ok file ↔ SourceFile.parse f.text = .ok file) ∧
      (∀ o o', o.dumpTokens = o'.dumpTokens → (parseFile o f).2 = (parseFile o' f).2) ∧
      ((∀ o o', (parseFile o f).2 = (parseFile o' f).2) ↔ ¬ ∃ p e, IsDisputed f.text p e) ∧
      ∀ p e, IsDisputed f.text p e → p ≠ e ∧ ∀ o, (parseFile o f).2 = .error (if o.dumpTokens then p else e) := by
  refine ⟨fun _ _ => parseFile_eq_ok_iff, fun o o' hsame => ?_, ⟨?_, fun h o o' => ?_⟩, fun p e h =>
    ⟨h.ne, parseFile_of_isDisputed h⟩⟩
  · by_cases h : ∃ p e, IsDisputed f.text p e
    · obtain ⟨p, e, h⟩ := h
      rw [parseFile_of_isDisputed h o, parseFile_of_isDisputed h o', hsame]
    · rw [parseFile_of_not_isDisputed h o, parseFile_of_not_isDisputed h o']
  · rintro h ⟨p, e, hpe⟩
    have hsame := h { machine := .amd64, dumpTokens := true } { machine := .amd64 }
    rw [parseFile_of_isDisputed hpe, parseFile_of_isDisputed hpe] at hsame
    exact hpe.ne (Except.error.inj hsame)
  · rw [parseFile_of_not_isDisputed h o, parseFile_of_not_isDisputed h o']

/-- A source whose first token is not the one that is expected, with a character that is no token behind it. -/
def disputedSource : String := "type T #\n"

theorem isDisputed_disputedSource : IsDisputed disputedSource ⟨.unexpectedText "#", ⟨7, 8⟩⟩
    ⟨.expected (.kind (.keyword .package)) (.keyword .type), ⟨0, 4⟩⟩ where
  tokenize_eq := error?_eq_some_iff.1 (by decide +kernel)
  parse_eq := error?_eq_some_iff.1 (by decide +kernel)
  stage_ne := nofun

theorem parseFile_dumps_disputed : ∃ p e, IsDisputed disputedSource p e ∧ p ≠ e ∧
    (parseFile ⟨.amd64, false, true, true⟩ ⟨⟨"a.go"⟩, disputedSource⟩).2 = .error p ∧
    (parseFile ⟨.amd64, false, false, true⟩ ⟨⟨"a.go"⟩, disputedSource⟩).2 = .error e := by
  obtain ⟨hne, hproblem⟩ := (parseFile_dumps ⟨⟨"a.go"⟩, disputedSource⟩).2.2.2 _ _ isDisputed_disputedSource
  exact ⟨_, _, isDisputed_disputedSource, hne, hproblem _, hproblem _⟩

theorem not_all_parseFile_dumps :
    ¬ ∀ (f : SourceText) (o o' : LintOptions), (parseFile o f).2 = (parseFile o' f).2 := by
  intro h
  have hsame := h ⟨⟨"a.go"⟩, disputedSource⟩ ⟨.amd64, false, true, false⟩ ⟨.amd64, false, false, false⟩
  rw [parseFile_of_isDisputed isDisputed_disputedSource, parseFile_of_isDisputed isDisputed_disputedSource] at hsame
  exact isDisputed_disputedSource.ne (Except.error.inj hsame)

/-! ## Whole runs -/

theorem member?_dumps (o o' : LintOptions) : member? o = member? o' := by
  funext entry
  cases h : (parseFile o entry.1).2 with
  | ok file =>
    have h' : (parseFile o' entry.1).2 = .ok file := parseFile_eq_ok_iff.2 (parseFile_eq_ok_iff.1 h)
    simp only [member?, h, h']
  | error p =>
    cases h' : (parseFile o' entry.1).2 with
    | ok file => exact absurd (h.symm.trans (parseFile_eq_ok_iff.2 (parseFile_eq_ok_iff.1 h'))) nofun
    | error q => simp only [member?, h, h']

/-- The files that cannot be parsed are those that are no members. -/
theorem isSome_problem? (o : LintOptions) (entry : SourceText × Nat) :
    (problem? o entry).isSome = !(member? o entry).isSome := by
  unfold problem? member?
  cases (parseFile o entry.1).2 <;> rfl

theorem length_parseProblems_dumps (o o' : LintOptions) (files : List SourceText) :
    (parseProblems o files).length = (parseProblems o' files).length := by
  simp only [parseProblems, List.length_filterMap_eq_countP, isSome_problem?, member?_dumps o o']

theorem analyzePackage_dumps (hmachine : o.machine = o'.machine) (hsuggest : o.suggest = o'.suggest) :
    analyzePackage o = analyzePackage o' := by
  funext members
  simp only [analyzePackage, hmachine, hsuggest]

/-- Dumps change nothing that a run reports, and not how it exits. -/
theorem ofPaths_dumps (hmachine : o.machine = o'.machine) (hsuggest : o.suggest = o'.suggest) (t : FileTree)
    (paths : List Path) :
    let run := (ofPaths o t paths).2
    let run' := (ofPaths o' t paths).2
    run.files = run'.files ∧ run.failures = run'.failures ∧ run.reports = run'.reports ∧
      run.errorCount = run'.errorCount ∧ run.exitCode = run'.exitCode := by
  simp only [ofPaths_snd, members, member?_dumps o o', analyzePackage_dumps hmachine hsuggest, errorCount, exitCode,
    sortProblems, List.length_mergeSort, List.length_append, length_parseProblems_dumps o o', and_self]

/-- If no file has two problems to choose from, dumps change nothing that a run finds. -/
theorem ofPaths_dumps_of_undisputed (hmachine : o.machine = o'.machine) (hsuggest : o.suggest = o'.suggest)
    {t : FileTree} {paths : List Path}
    (h : ∀ f ∈ paths.filterMap (source? t), ¬ ∃ p e, IsDisputed f.text p e) :
    (ofPaths o t paths).2 = (ofPaths o' t paths).2 := by
  have hproblems : parseProblems o (paths.filterMap (source? t)) = parseProblems o' (paths.filterMap (source? t)) := by
    refine List.filterMap_congr fun entry hentry => ?_
    have hundisputed := h _ (List.fst_mem_of_mem_zipIdx hentry)
    simp only [problem?, parseFile_of_not_isDisputed hundisputed]
  simp only [ofPaths_snd, members, member?_dumps o o', analyzePackage_dumps hmachine hsuggest, hproblems]

end Run

end StructPadding
