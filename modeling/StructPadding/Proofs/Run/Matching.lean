-- SUMMARY: Discovery finds exactly what its patterns name, in path order, however entries and patterns are ordered.
import StructPadding.Proofs.FileTree.Discovered
import StructPadding.Proofs.FileTree.Reordered
import StructPadding.Proofs.Outcome
import StructPadding.Proofs.Run.Spellings
import StructPadding.Proofs.Source.Lines

/-!
# What patterns name

A pattern names a file, or the source files in a folder, or with dots at its end also those below the folder that are
reached through folders that are not ignored. Discovery finds just these files, each in one spelling and in the order of
their paths, unless something stands in the way: a root that leads nowhere, a folder to search that cannot be opened or
listed to its end, or an entry that cannot be told for a file or a folder.
-/

namespace StructPadding

/-! ## Patterns -/

namespace Pattern

/-- Whether a pattern names a path: that of its root, if it is a file, or that of a source file in the folder. -/
def Matches (extensions : List String) (t : FileTree) (pattern : Pattern) (p : Path) : Prop :=
  (∃ text, t.lookup pattern.root = .ok (.file text) ∧ p = pattern.root) ∨
    ∃ f, t.lookup pattern.root = .ok (.folder f) ∧
      Discovery.Finds extensions pattern.recursive pattern.root f.entries p

/-- What stands in the way of a pattern: its root leads nowhere or cannot be opened, or something stands in the way of
    the search of it. -/
inductive Stopped (t : FileTree) (pattern : Pattern) : Path × AccessError → Prop
  | root {e : AccessError} : t.lookup pattern.root = .error e → Stopped t pattern (pattern.root, e)
  | opening {f : Folder} {x : Path × AccessError} : t.lookup pattern.root = .ok (.folder f) →
    Discovery.Opened.ofFolder t.room pattern.root f = .error x → Stopped t pattern x
  | inside {f : Folder} {opened : Discovery.Opened} {x : Path × AccessError} : t.lookup pattern.root = .ok (.folder f) →
    Discovery.Opened.ofFolder t.room pattern.root f = .ok opened →
      Discovery.Blocked pattern.recursive opened f.entries x → Stopped t pattern x

/-- Whether the root of a pattern exists, all folders to search can be opened and listed to their ends, and all their
    entries can be told for files or folders. -/
def IsSearchable (t : FileTree) (pattern : Pattern) : Prop := ∀ x, ¬ pattern.Stopped t x

/-- Whether a pattern finds what it names and nothing stands in its way, or fails with what does. -/
def Answers (extensions : List String) (t : FileTree) (pattern : Pattern) :
    Except (Path × AccessError) (List Path) → Prop
  | .ok ps => (∀ p, p ∈ ps ↔ pattern.Matches extensions t p) ∧ pattern.IsSearchable t
  | .error x => pattern.Stopped t x

end Pattern

namespace Discovery

open FileTree

variable {extensions : List String} {t : FileTree} {pattern : Pattern} {ps : List Path}

/-- What is found can be told for a file or a folder. -/
theorem not_lookup_lost {p : Path} {e : AccessError} : t.lookup p ≠ .ok (.lost e) := by
  intro h
  obtain ⟨-, here, above, hstand, hwalk⟩ := Path.isPlain_of_lookup h
  rcases leads_of_walk hstand hwalk with ⟨_, _, _, hnode, -, -⟩ | ⟨_, _, _, _, hnode, -, -, -⟩ <;> cases hnode

theorem answers_ofPattern (extensions : List String) (t : FileTree) (pattern : Pattern) :
    pattern.Answers extensions t (ofPattern extensions t pattern) := by
  unfold ofPattern
  cases hroot : t.lookup pattern.root with
  | error e => exact .root hroot
  | ok node =>
    cases node with
    | lost e => exact absurd hroot not_lookup_lost
    | file text =>
      refine ⟨fun p => by simp [Pattern.Matches, hroot], ?_⟩
      rintro x (h | ⟨h, -⟩ | ⟨h, -, -⟩) <;> cases hroot.symm.trans h
    | folder f =>
      cases hopened : Opened.ofFolder t.room pattern.root f with
      | error x =>
        simp only [hopened, bind, Except.bind]
        exact .opening hroot hopened
      | ok opened =>
        have hanswers := answers_ofEntries extensions pattern.recursive opened f.entries
        simp only [hopened, bind, Except.bind]
        cases hfound : ofEntries extensions pattern.recursive opened f.entries with
        | error x =>
          rw [hfound] at hanswers
          exact .inside hroot hopened hanswers
        | ok ps =>
          rw [hfound] at hanswers
          obtain ⟨hfinds, hclear⟩ := hanswers
          rw [(of_ofFolder hopened).1] at hfinds
          refine ⟨fun p => by simpa [Pattern.Matches, hroot] using hfinds p, ?_⟩
          rintro x (h | ⟨h, hfail⟩ | ⟨h, hopened', hblocked⟩)
          · cases hroot.symm.trans h
          · cases hroot.symm.trans h
            cases hopened.symm.trans hfail
          · cases hroot.symm.trans h
            cases hopened.symm.trans hopened'
            exact hclear x hblocked

/-- A pattern that can be searched finds what it names. -/
theorem ofPattern_of_isSearchable (extensions : List String) (h : pattern.IsSearchable t) :
    ∃ ps, ofPattern extensions t pattern = .ok ps ∧ ∀ p, p ∈ ps ↔ pattern.Matches extensions t p := by
  have hanswers := answers_ofPattern extensions t pattern
  cases hfound : ofPattern extensions t pattern with
  | error x =>
    rw [hfound] at hanswers
    exact absurd hanswers (h x)
  | ok ps =>
    rw [hfound] at hanswers
    exact ⟨ps, rfl, hanswers.1⟩

/-- A pattern that finds something can be searched. -/
theorem isSearchable_of_ofPattern (h : ofPattern extensions t pattern = .ok ps) : pattern.IsSearchable t := by
  have hanswers := answers_ofPattern extensions t pattern
  rw [h] at hanswers
  exact hanswers.2

/-- A pattern that cannot be searched fails with something that stands in its way. -/
theorem ofPattern_of_stopped (extensions : List String) {x : Path × AccessError} (h : pattern.Stopped t x) :
    ∃ y, pattern.Stopped t y ∧ ofPattern extensions t pattern = .error y := by
  have hanswers := answers_ofPattern extensions t pattern
  cases hfound : ofPattern extensions t pattern with
  | ok ps => exact absurd h (isSearchable_of_ofPattern hfound x)
  | error y =>
    rw [hfound] at hanswers
    exact ⟨y, hanswers, rfl⟩

/-- The same stands in the way of a pattern in every order of the entries. -/
theorem stopped_of_reordered {t' : FileTree} (ht' : t.Reordered t') {x : Path × AccessError}
    (h : pattern.Stopped t' x) : pattern.Stopped t x := by
  have hroot := ht'.lookup pattern.root
  generalize hlookup : t.lookup pattern.root = r at hroot
  cases h with
  | root h =>
    rw [h] at hroot
    cases hroot
    exact .root hlookup
  | opening h hfail =>
    rw [h] at hroot
    cases hroot with
    | ok hnode =>
      cases hnode with
      | folder hclosed _ => exact .opening hlookup (ht'.room ▸ ofFolder_congr hclosed .. ▸ hfail)
  | inside h hopened hblocked =>
    rw [h] at hroot
    cases hroot with
    | ok hnode =>
      cases hnode with
      | folder hclosed hes =>
        exact .inside hlookup (ht'.room ▸ ofFolder_congr hclosed .. ▸ hopened) (hblocked.of_reordered hes)

/-- A pattern finds no path in two spellings. -/
theorem spelledAlike_of_ofPattern (h : ofPattern extensions t pattern = .ok ps) : Path.SpelledAlike ps := by
  rcases of_mem_ofPattern h with ⟨text, -, rfl⟩ | ⟨f, hroot, hbelow⟩
  · simp [Path.SpelledAlike]
  obtain ⟨hplain, here, above, hstand, hwalk⟩ := Path.isPlain_of_lookup hroot
  rcases leads_of_walk hstand hwalk with ⟨_, _, _, hnode, htarget, -⟩ | ⟨_, _, _, _, hnode, _⟩
  case inr => cases hnode
  cases hnode
  have hnames {names : List String} {g : Folder} {s : String} (henters : f.Enters names g) (hs : isEntryName s) :
      ∀ s' ∈ names ++ [s], isEntryName s' := by
    simpa [or_imp, forall_and, hs] using (henters.isProper (isProper_of_stand htarget)).2
  intro p hp q hq hsame
  obtain ⟨names, g, s, henters, hs, rfl⟩ := hbelow p hp
  obtain ⟨names', g', s', henters', hs', rfl⟩ := hbelow q hq
  rw [Path.components_entries hplain (hnames henters hs), Path.components_entries hplain (hnames henters' hs')] at hsame
  have hinjective : Function.Injective Component.name := fun _ _ => Component.name.inj
  rw [hinjective.list_map (List.append_cancel_left hsame)]

end Discovery

/-! ## Many patterns -/

/-- Whether paths are what a pattern finds, and all that it names. -/
structure Yields (extensions : List String) (t : FileTree) (text : String) (ps : List Path) : Prop where
  found : Discovery.ofPattern extensions t (.ofText text) = .ok ps
  mem_iff : ∀ p, p ∈ ps ↔ (Pattern.ofText text).Matches extensions t p

section

variable {extensions : List String} {t : FileTree} {patterns : List String} {pss : List (List Path)}

theorem exists_yields (extensions : List String) (h : ∀ text ∈ patterns, (Pattern.ofText text).IsSearchable t) :
    ∃ pss, List.Forall₂ (Yields extensions t) patterns pss := by
  induction patterns with
  | nil => exact ⟨[], .nil⟩
  | cons text rest ih =>
    obtain ⟨htext, hrest⟩ := List.forall_mem_cons.1 h
    obtain ⟨ps, hps, hmem⟩ := Discovery.ofPattern_of_isSearchable extensions htext
    obtain ⟨pss, hpss⟩ := ih hrest
    exact ⟨ps :: pss, .cons ⟨hps, hmem⟩ hpss⟩

/-- What the patterns find one by one is normalized. -/
theorem discover_of_yields (h : List.Forall₂ (Yields extensions t) patterns pss) :
    discover extensions t patterns = .ok (Path.normalize pss.flatten) :=
  discover_eq_ok_iff.2 ⟨pss, mapM_eq_ok_iff.2 (h.imp fun _ _ h => h.found), rfl⟩

theorem mem_flatten_of_yields (h : List.Forall₂ (Yields extensions t) patterns pss) (p : Path) :
    p ∈ pss.flatten ↔ ∃ text ∈ patterns, (Pattern.ofText text).Matches extensions t p := by
  induction h with
  | nil => simp
  | cons hhead _ ih => simp [hhead.mem_iff, ih]

/-- In another order of the entries, patterns find the same one by one, in another order. -/
theorem mapM_ofPattern_reordered {t' : FileTree} (ht' : t.Reordered t')
    (h : List.Forall₂ (Yields extensions t) patterns pss) :
    ∃ pss', (patterns.mapM fun text => Discovery.ofPattern extensions t' (.ofText text)) = .ok pss' ∧
      List.Forall₂ (fun ps ps' => Path.SpelledAlike ps ∧ ps.Perm ps') pss pss' := by
  induction h with
  | nil => exact ⟨[], rfl, .nil⟩
  | @cons text ps rest pss hhead _ ih =>
    obtain ⟨pss', hpss', hperm⟩ := ih
    have hsame := Discovery.ofPattern_reordered extensions ht' (.ofText text)
    rw [hhead.found] at hsame
    generalize hfound : Discovery.ofPattern extensions t' (.ofText text) = x at hsame
    cases hsame with
    | ok hps =>
      refine ⟨_ :: pss', ?_, .cons ⟨Discovery.spelledAlike_of_ofPattern hhead.found, hps⟩ hperm⟩
      rw [List.mapM_cons, hfound, hpss']
      rfl

/-- Discovery fails as the first pattern that cannot be searched does. -/
theorem discover_eq_error {before after : List String} {text : String} {e : Path × AccessError}
    (hbefore : ∀ text ∈ before, (Pattern.ofText text).IsSearchable t)
    (h : Discovery.ofPattern extensions t (.ofText text) = .error e) :
    discover extensions t (before ++ text :: after) = .error e := by
  have hok : ∀ text ∈ before, ∃ ps, Discovery.ofPattern extensions t (.ofText text) = .ok ps := fun text htext =>
    (Discovery.ofPattern_of_isSearchable extensions (hbefore text htext)).imp fun _ h => h.1
  have hfail : ((before ++ text :: after).mapM fun text => Discovery.ofPattern extensions t (.ofText text)) =
      .error e := mapM_eq_error hok h
  rw [discover, hfail]
  rfl

end

/-- Patterns that can be searched find what they name: paths in ascending order, each of which some pattern names, and
    all paths that are named, in one spelling. The order in which entries are listed makes no difference, and up to
    spelling neither do the order and the repetition of patterns. If a pattern cannot be searched, the first such pattern
    decides how discovery fails: at its root, if that leads nowhere, and otherwise at something that stands in its way,
    whatever the order of the entries. -/
theorem discover_exactly (extensions : List String) (t : FileTree) (patterns : List String) :
    ((∀ text ∈ patterns, (Pattern.ofText text).IsSearchable t) →
      ∃ paths, discover extensions t patterns = .ok paths ∧
        (paths.Pairwise fun p q => p.compare q = .lt) ∧
        (∀ p ∈ paths, ∃ text ∈ patterns, (Pattern.ofText text).Matches extensions t p) ∧
        (∀ text ∈ patterns, ∀ p, (Pattern.ofText text).Matches extensions t p →
          ∃ q ∈ paths, q.components = p.components) ∧
        (∀ t', t.Reordered t' → discover extensions t' patterns = .ok paths) ∧
        ∀ patterns', (∀ text, text ∈ patterns' ↔ text ∈ patterns) →
          ∃ paths', discover extensions t patterns' = .ok paths' ∧
            paths'.map Path.components = paths.map Path.components) ∧
      ∀ before text after, patterns = before ++ text :: after →
        (∀ text' ∈ before, (Pattern.ofText text').IsSearchable t) →
          (∀ e, t.lookup (Pattern.ofText text).root = .error e → ∀ t', t.Reordered t' →
            discover extensions t' patterns = .error ((Pattern.ofText text).root, e)) ∧
          (¬ (Pattern.ofText text).IsSearchable t → ∀ t', t.Reordered t' →
            ∃ x, (Pattern.ofText text).Stopped t x ∧ discover extensions t' patterns = .error x) := by
  refine ⟨fun hsearchable => ?_, fun before text after hpatterns hbefore => ?_⟩
  · obtain ⟨pss, hpss⟩ := exists_yields extensions hsearchable
    refine ⟨_, discover_of_yields hpss, Path.pairwise_normalize _, fun p hp => ?_, fun text htext p hp => ?_,
      fun t' ht' => ?_, fun patterns' hsame => ?_⟩
    · exact (mem_flatten_of_yields hpss p).1 (Path.mem_of_mem_normalize hp)
    · exact Path.exists_mem_normalize ((mem_flatten_of_yields hpss p).2 ⟨text, htext, hp⟩)
    · obtain ⟨pss', hpss', hperm⟩ := mapM_ofPattern_reordered ht' hpss
      exact discover_eq_ok_iff.2 ⟨pss', hpss', (Path.normalize_flatten_congr hperm).symm⟩
    · obtain ⟨pss', hpss'⟩ := exists_yields extensions fun text htext =>
        hsearchable text ((hsame text).1 htext)
      refine ⟨_, discover_of_yields hpss', Path.map_components_normalize_congr fun c => ?_⟩
      simp only [List.mem_map, mem_flatten_of_yields hpss', mem_flatten_of_yields hpss, hsame]
  · have hbefore' {t' : FileTree} (ht' : t.Reordered t') : ∀ text ∈ before, (Pattern.ofText text).IsSearchable t' :=
      fun text htext x hx => hbefore text htext x (Discovery.stopped_of_reordered ht' hx)
    refine ⟨fun e hroot t' ht' => ?_, fun hstopped t' ht' => ?_⟩
    · have hsame := ht'.lookup (Pattern.ofText text).root
      rw [hroot] at hsame
      generalize hroot' : t'.lookup (Pattern.ofText text).root = r at hsame
      cases hsame
      have hfail : Discovery.ofPattern extensions t' (.ofText text) = .error ((Pattern.ofText text).root, e) := by
        simp [Discovery.ofPattern, hroot']
      exact hpatterns ▸ discover_eq_error (hbefore' ht') hfail
    · have hsame := Discovery.ofPattern_reordered extensions ht' (.ofText text)
      obtain ⟨x, hx⟩ := Classical.not_forall_not.1 hstopped
      obtain ⟨y, -, hfail⟩ := Discovery.ofPattern_of_stopped extensions hx
      rw [hfail] at hsame
      have hanswers := Discovery.answers_ofPattern extensions t' (.ofText text)
      generalize hfail' : Discovery.ofPattern extensions t' (.ofText text) = r at hsame hanswers
      cases hsame with
      | error _ z =>
        exact ⟨z, Discovery.stopped_of_reordered ht' hanswers, hpatterns ▸ discover_eq_error (hbefore' ht') hfail'⟩

/-- A folder with a file, a folder with another one, and test data. -/
def leafyFolder : Folder :=
  ⟨none, [.named "b.go" (.file (.ok "package p\n")),
    .named "sub" (.folder ⟨none, [.named "a.go" (.file (.ok "package q\n"))]⟩),
    .named "testdata" (.folder ⟨none, [.named "c.go" (.file (.ok "package r\n"))]⟩)]⟩

def leafyTree : FileTree := ⟨leafyFolder, [], 8, by decide +kernel⟩

/-- The same with its entries in reverse order. -/
def leafyTree' : FileTree := ⟨⟨none, leafyFolder.entries.reverse⟩, [], 8, by decide +kernel⟩

/-- A folder with a file, and with a folder that one is not let into and that cannot be listed. -/
def lockedTree : FileTree :=
  .ofWorking ⟨none, [.named "a.go" (.file (.ok "package p\n")),
    .named "sub" (.folder ⟨some .denied, [.fault .denied]⟩)]⟩ (by decide +kernel)

theorem discover_exactly_leafy :
    (∃ paths, discover [".go"] leafyTree ["/b.go", "./..."] = .ok paths ∧
      (paths.Pairwise fun p q => p.compare q = .lt) ∧
      discover [".go"] leafyTree' ["/b.go", "./..."] = .ok paths) ∧
    ∃ x, (Pattern.ofText "./...").Stopped lockedTree x ∧ discover [".go"] lockedTree ["a.go", "./..."] = .error x := by
  have hsearchable {t : FileTree} {patterns : List String}
      (hok : ∀ text ∈ patterns, (Discovery.ofPattern [".go"] t (.ofText text)).isOk) :
      ∀ text ∈ patterns, (Pattern.ofText text).IsSearchable t := by
    intro text htext
    have hfound := hok text htext
    cases h : Discovery.ofPattern [".go"] t (.ofText text) with
    | ok ps => exact Discovery.isSearchable_of_ofPattern h
    | error e =>
      rw [h] at hfound
      cases hfound
  have hreordered : leafyTree.Reordered leafyTree' :=
    ⟨⟨rfl, .of_perm leafyFolder.entries.reverse_perm.symm (by decide +kernel)⟩, rfl, rfl⟩
  obtain ⟨paths, hpaths, hup, -, -, hsame, -⟩ :=
    (discover_exactly [".go"] leafyTree ["/b.go", "./..."]).1 (hsearchable (by decide +kernel))
  have hlocked : ¬ (Pattern.ofText "./...").IsSearchable lockedTree := by
    intro h
    obtain ⟨ps, hps, -⟩ := Discovery.ofPattern_of_isSearchable [".go"] h
    have hfail : Discovery.ofPattern [".go"] lockedTree (.ofText "./...") = .error (⟨"./sub"⟩, .denied) := by
      decide +kernel
    cases hfail.symm.trans hps
  refine ⟨⟨paths, hpaths, hup, hsame _ hreordered⟩, ?_⟩
  exact ((discover_exactly [".go"] lockedTree _).2 ["a.go"] "./..." [] rfl (hsearchable (by decide +kernel))).2
    hlocked _ ⟨⟨rfl, .refl _⟩, rfl, rfl⟩

/-! ## Long paths -/

/-- Steps to the folder that one is in. -/
def idleSteps (n : Nat) : List Char := (List.replicate n ['.', '/']).flatten

theorem idleSteps_succ (n : Nat) : idleSteps (n + 1) = '.' :: '/' :: idleSteps n := by
  simp [idleSteps, List.replicate_succ]

/-- The folder that one is in, after so many steps. -/
def idlePath (n : Nat) : Path := ⟨String.ofList (idleSteps n ++ ['.'])⟩

/-- The pattern for everything below that folder. -/
def idlePattern (n : Nat) : String := String.ofList (idleSteps n ++ "./...".toList)

theorem ofText_idlePattern (n : Nat) : Pattern.ofText (idlePattern n) = ⟨idlePath n, true⟩ := by
  have htext : (idlePattern n).toList = (idleSteps n ++ ['.', '/']) ++ "...".toList := by
    rw [idlePattern, String.toList_ofList, List.append_assoc]
    rfl
  have hsuffix : Pattern.withoutSuffix? "...".toList (idlePattern n).toList = some (idleSteps n ++ ['.', '/']) := by
    rw [htext, Pattern.withoutSuffix?, if_pos (List.isSuffixOf_iff_suffix.2 (List.suffix_append ..)),
      List.length_append, Nat.add_sub_cancel, List.take_left]
  have htrim : Pattern.trimSlashes (idleSteps n ++ ['.', '/']) = idleSteps n ++ ['.'] := by
    simp [Pattern.trimSlashes]
  simp only [Pattern.ofText, hsuffix]
  split
  · next h => simp at h
  · next h =>
    cases h
    simp [htrim, idlePath]
  · next h => cases h

theorem utf8ByteSize_idlePath (n : Nat) : (idlePath n).text.utf8ByteSize = 2 * n + 1 := by
  rw [idlePath, utf8ByteSize_ofList]
  induction n with
  | zero => rfl
  | succ n ih =>
    rw [idleSteps_succ, List.cons_append, List.cons_append, Line.byteLength_cons, Line.byteLength_cons, ih]
    have hdot : '.'.utf8Size = 1 := rfl
    have hslash : '/'.utf8Size = 1 := rfl
    omega

theorem walk_idlePath {f : Folder} (hopen : f.closed = none) (above : List Folder) (n : Nat) :
    FileTree.walk f above (idlePath n).pieces = .ok (.folder f) := by
  induction n with
  | zero =>
    have hpieces : (idlePath 0).pieces = ["."] := rfl
    simp [hpieces, FileTree.walk, hopen]
  | succ n ih =>
    have hpieces : (idlePath (n + 1)).pieces = "." :: (idlePath n).pieces := by
      have htext : (idlePath (n + 1)).text.toList = ['.'] ++ '/' :: (idleSteps n ++ ['.']) := by
        simp [idlePath, idleSteps_succ]
      rw [Path.pieces_append _ htext]
      rfl
    simpa [hpieces, FileTree.walk, hopen] using ih

theorem lookup_idlePath {t : FileTree} {f : Folder} {above : List Folder} (hstand : t.stand t.working = some (f, above))
    (hopen : f.closed = none) {n : Nat} (h : 2 * n + 1 ≤ FileTree.pathLimit) :
    t.lookup (idlePath n) = .ok (.folder f) := by
  have hsteps : ∀ c ∈ (idlePath n).text.toList, c = '.' ∨ c = '/' := by
    simp only [idlePath, String.toList_ofList]
    induction n with
    | zero => simp [idleSteps]
    | succ n ih => simpa [idleSteps_succ] using ih (by omega)
  have hhead : (idlePath n).text.toList.head? = some '.' := by
    cases n <;> simp [idlePath, idleSteps, List.replicate_succ]
  have hvalid : '\x00' ∉ (idlePath n).text.toList := fun hmem => (hsteps _ hmem).elim nofun nofun
  have hne : (idlePath n).text ≠ "" := fun hempty => by simp [hempty] at hhead
  have hstart : t.start (idlePath n) = t.working := by simp [FileTree.start, Path.isAbsolute, hhead]
  rw [Path.lookup_of_isPlain ⟨hne, hvalid⟩ (by rwa [utf8ByteSize_idlePath]), hstart, FileTree.walkFrom_of_stand hstand,
    walk_idlePath hopen]

/-- A folder with a file in a folder. -/
def plainFolder : Folder := ⟨none, [.named "d" (.folder ⟨none, [.named "a.go" (.file (.ok "package a\n"))]⟩)]⟩

def plainTree : FileTree := .ofWorking plainFolder (by decide +kernel)

theorem lookup_plainTree {n : Nat} (h : 2 * n + 1 ≤ FileTree.pathLimit) :
    plainTree.lookup (idlePath n) = .ok (.folder plainFolder) := lookup_idlePath rfl rfl h

/-- From a path that is just short enough no folder can be searched. -/
theorem discover_idlePattern {n : Nat} (hroot : 2 * n + 1 ≤ FileTree.pathLimit)
    (hbelow : FileTree.pathLimit < 2 * n + 3) : ∃ x, discover [".go"] plainTree [idlePattern n] = .error x := by
  have hlong : FileTree.pathLimit < ((idlePath n).entry "d").text.utf8ByteSize := by
    have hlast : (idlePath n).text.toList.getLast? ≠ some '/' := by simp [idlePath]
    have hname : "/".utf8ByteSize = 1 ∧ "d".utf8ByteSize = 1 := by decide +kernel
    rw [Path.entry, if_neg hlast, String.utf8ByteSize_append, String.utf8ByteSize_append, utf8ByteSize_idlePath]
    omega
  have hstopped : (Pattern.ofText (idlePattern n)).Stopped plainTree ((idlePath n).entry "d", .nameTooLong) := by
    rw [ofText_idlePattern]
    have hopened : Discovery.Opened.ofFolder plainTree.room (idlePath n) plainFolder = .ok ⟨idlePath n, none, 999⟩ := by
      have hshort : ¬ FileTree.pathLimit < (idlePath n).text.utf8ByteSize := by
        rw [utf8ByteSize_idlePath]
        omega
      simp [Discovery.Opened.ofFolder, hshort, plainTree, FileTree.ofWorking, plainFolder]
    have hfail (f : Folder) : Discovery.Opened.inner ⟨idlePath n, none, 999⟩ "d" f =
        .error ((idlePath n).entry "d", .nameTooLong) := by
      simp [Discovery.Opened.inner, Discovery.Opened.ofFolder, hlong]
    have hfolder : Discovery.isIgnoredFolder "d" = false := by decide +kernel
    exact .inside (lookup_plainTree hroot) hopened
      (.opening (List.mem_singleton_self _) ⟨rfl, by simp [hfolder]⟩ (hfail _))
  obtain ⟨y, -, hfail⟩ := Discovery.ofPattern_of_stopped [".go"] hstopped
  have herror : discover [".go"] plainTree ([] ++ idlePattern n :: []) = .error y :=
    discover_eq_error (List.forall_mem_nil _) hfail
  exact ⟨y, herror⟩

/-- Discovery may fail although all roots exist, for instance at a path that is too long. -/
theorem not_all_discover_exactly :
    ¬ ∀ (extensions : List String) (t : FileTree) (patterns : List String),
      (∀ text ∈ patterns, ∃ node, t.lookup (Pattern.ofText text).root = .ok node) →
        ∃ paths, discover extensions t patterns = .ok paths := by
  intro hall
  have hroot : 2 * 2047 + 1 ≤ FileTree.pathLimit := by decide
  obtain ⟨x, hfail⟩ := discover_idlePattern hroot (by decide)
  obtain ⟨paths, hpaths⟩ := hall [".go"] plainTree [idlePattern 2047] fun text htext =>
    ⟨.folder plainFolder, by rw [List.mem_singleton.1 htext, ofText_idlePattern, lookup_plainTree hroot]⟩
  cases hfail.symm.trans hpaths

end StructPadding
