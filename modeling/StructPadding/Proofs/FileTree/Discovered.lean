-- SUMMARY: Discovered paths name entries of folders of the tree, and what is read there depends on their places.
import StructPadding.Proofs.FileTree.Place
import StructPadding.Proofs.FileTree.Search

/-!
# Discovered paths

A path is discovered because it names a file, or because it is below a folder that was found. In both cases its last
component is a name, the others lead to a folder of the tree, and it is read as the place that it leads to.
-/

namespace StructPadding

/-! ## Proper folders -/

namespace Folder

variable {f g : Folder} {name : String} {node : Node}

theorem isProper_of_mem (hf : f.isProper) (h : .named name node ∈ f.entries) :
    isEntryName name ∧ node.isProper := by
  have hentry := (Entry.areProper_iff.1 (isProper_iff.1 hf)).1 _ h
  simpa [Entry.isProper] using hentry

/-- In a proper folder a name is that of one entry. -/
theorem node?_of_mem (hf : f.isProper) (h : .named name node ∈ f.entries) : f.node? name = some node := by
  obtain ⟨closed, es⟩ := f
  have hnames := (Entry.areProper_iff.1 (isProper_iff.1 hf)).2
  clear hf
  induction es with
  | nil => cases h
  | cons e es ih =>
    obtain ⟨hfirst, hrest⟩ := List.pairwise_cons.1 hnames
    rw [node?_cons]
    rcases List.mem_cons.1 h with rfl | hmem
    · simp
    · cases e with
      | fault => exact ih hmem hrest
      | named s n =>
        have hs : s ≠ name := fun heq => hfirst _ hmem name (congrArg some heq) rfl
        simpa [hs] using ih hmem hrest

/-- Whether one gets from a folder to another one by names, through folders that one is let into. -/
inductive Enters : Folder → List String → Folder → Prop
  | refl (f : Folder) : Enters f [] f
  | step {f inner g : Folder} {name : String} {names : List String} :
    f.closed = none → .named name (.folder inner) ∈ f.entries → Enters inner names g → Enters f (name :: names) g

theorem Enters.isProper {names : List String} (h : f.Enters names g) (hf : f.isProper) :
    g.isProper ∧ ∀ s ∈ names, isEntryName s := by
  induction h with
  | refl => exact ⟨hf, List.forall_mem_nil _⟩
  | step _ hmem _ ih =>
    obtain ⟨hname, hinner⟩ := isProper_of_mem hf hmem
    obtain ⟨hg, hnames⟩ := ih (by simpa [Node.isProper] using hinner)
    exact ⟨hg, List.forall_mem_cons.2 ⟨hname, hnames⟩⟩

/-- Names lead on from a folder as they do from the folder that they enter. -/
theorem Enters.walk_eq {t : FileTree} {names : List String} (h : f.Enters names g) {place : Place}
    {above : List Folder} (hstand : t.stand place = some (f, above)) (rest : List String) :
    FileTree.walk f above (names ++ rest) = t.walkFrom (names.reverse ++ place) rest := by
  induction h generalizing place above with
  | refl f => exact (FileTree.walkFrom_of_stand hstand rest).symm
  | @step f inner g name names hopen hmem _ ih =>
    have hproper := FileTree.isProper_of_stand hstand
    have hnode := node?_of_mem hproper hmem
    obtain ⟨hempty, hdot, hup, -, -, hlimit⟩ := isEntryName_iff.1 (isProper_of_mem hproper hmem).1
    have hstep : FileTree.walk f above (name :: (names ++ rest)) =
        FileTree.walk inner (f :: above) (names ++ rest) := by
      simp only [FileTree.walk, hempty, hopen, hdot, hup, Nat.not_lt.2 hlimit, hnode, if_false]
    rw [List.cons_append, hstep, ih (FileTree.stand_cons hstand hnode), List.reverse_cons, List.append_assoc,
      List.singleton_append]

end Folder

/-! ## Names -/

namespace Path

/-- Whether a path names an entry: a name comes last, what is before it leads to the folder, and following the path
    leads where the name leads from there. -/
structure Names (t : FileTree) (p : Path) (folder : Place) (s : String) : Prop where
  components : p.components = p.directory ++ [.name s]
  stands : t.folder p = folder
  lookup : p.text.utf8ByteSize ≤ FileTree.pathLimit → t.lookup p = t.walkFrom folder [s]

variable {t : FileTree} {p : Path}

theorem lookup_of_isPlain (h : p.IsPlain) (hsize : p.text.utf8ByteSize ≤ FileTree.pathLimit) :
    t.lookup p = t.walkFrom (t.start p) p.pieces := by
  simp [FileTree.lookup, h.text_ne, h.valid, Nat.not_lt.2 hsize]

/-- What a path leads to is found from the folder that the path begins in. -/
theorem isPlain_of_lookup {node : Node} (h : t.lookup p = .ok node) :
    p.IsPlain ∧
      ∃ here above, t.stand (t.start p) = some (here, above) ∧ FileTree.walk here above p.pieces = .ok node := by
  unfold FileTree.lookup at h
  split at h
  · cases h
  next hvalid =>
  split at h
  · cases h
  split at h
  · cases h
  next hne =>
  unfold FileTree.walkFrom at h
  split at h
  · next here above hstand => exact ⟨⟨hne, by simpa using hvalid⟩, here, above, hstand, h⟩
  · cases h

/-- What comes before the steps of a path leads to where it begins. -/
theorem exists_components_eq (t : FileTree) (p : Path) :
    ∃ lead, Component.follow t.working lead = t.start p ∧ p.components = lead ++ p.pieces.filterMap component? := by
  simp only [components, FileTree.start]
  split
  · exact ⟨[.root], rfl, rfl⟩
  split
  · exact ⟨[.current], rfl, rfl⟩
  · exact ⟨[], rfl, rfl⟩

/-- A path that leads to a file names it. -/
theorem names_of_lookup_file {text : Except AccessError String} (h : t.lookup p = .ok (.file text)) :
    ∃ folder s, p.Names t folder s := by
  obtain ⟨hplain, here, above, hstand, hwalk⟩ := isPlain_of_lookup h
  obtain ⟨lead, hlead, hcomponents⟩ := exists_components_eq t p
  rcases FileTree.leads_of_walk hstand hwalk with ⟨_, _, _, hnode, -, -⟩ | ⟨folder, init, s, _, -, hpieces, hs, hleads⟩
  · cases hnode
  have hsplit : p.components = (lead ++ init.filterMap component?) ++ [.name s] := by
    have hlast : [s].filterMap component? = [.name s] := List.filterMap_cons_some hs
    rw [hcomponents, hpieces, List.filterMap_append, hlast, List.append_assoc]
  have hdirectory : p.directory = lead ++ init.filterMap component? := by
    rw [directory, hsplit, List.dropLast_concat]
  refine ⟨folder, s, hdirectory ▸ hsplit, ?_, fun hsize => ?_⟩
  · rw [FileTree.folder, hdirectory, Component.follow_append, hlead]
    exact hleads.steps
  · rw [lookup_of_isPlain hplain hsize, FileTree.walkFrom_of_stand hstand, hpieces, hleads.walk_eq]

/-- The path of an entry below a folder that was found names the entry, if it is reached through folders that one is let
    into. -/
theorem names_of_lookup_folder {folder : Path} {f g : Folder} (h : t.lookup folder = .ok (.folder f))
    {names : List String} (henters : f.Enters names g) {s : String} (hs : isEntryName s) :
    ∃ place, ((names ++ [s]).foldl entry folder).Names t place s := by
  obtain ⟨hplain, here, above, hstand, hwalk⟩ := isPlain_of_lookup h
  obtain ⟨lead, hlead, hcomponents⟩ := exists_components_eq t folder
  rcases FileTree.leads_of_walk hstand hwalk with ⟨target, f', above', hnode, htarget, hleads⟩ | ⟨_, _, _, _, hnode, _⟩
  case inr => cases hnode
  cases hnode
  have hnames : ∀ s' ∈ names ++ [s], isEntryName s' := by
    simpa [or_imp, forall_and, hs] using (henters.isProper (FileTree.isProper_of_stand htarget)).2
  have hsplit := components_entries hplain hnames
  rw [List.map_append, List.map_singleton, ← List.append_assoc] at hsplit
  have hdirectory : ((names ++ [s]).foldl entry folder).directory = folder.components ++ names.map .name := by
    rw [directory, hsplit, List.dropLast_concat]
  refine ⟨names.reverse ++ target, hdirectory ▸ hsplit, ?_, fun hsize => ?_⟩
  · have hfolder : Component.follow t.working folder.components = target := by
      rw [hcomponents, Component.follow_append, hlead]
      exact hleads.steps
    rw [FileTree.folder, hdirectory, Component.follow_append, hfolder, Component.follow_names]
  · have hstart : t.start ((names ++ [s]).foldl entry folder) = t.start folder := by
      rw [FileTree.start, FileTree.start, isAbsolute_entries hplain hnames]
    have hbelow : names ++ [s] ≠ [] := by simp
    obtain ⟨pieces, hpieces, hfolder⟩ := pieces_entries folder hbelow hnames
    -- A slash at the end of the path of the folder is the only piece that the path of the entry may leave out.
    have hslash : FileTree.walk here above (pieces ++ (names ++ [s])) =
        FileTree.walk here above (folder.pieces ++ (names ++ [s])) := by
      rcases hfolder with hfolder | hfolder
      · rw [hfolder]
      · rw [hfolder, List.append_assoc, List.singleton_append, FileTree.walk_append_slash _ hbelow]
    rw [lookup_of_isPlain (isPlain_entries hplain hnames) hsize, hstart, FileTree.walkFrom_of_stand hstand, hpieces,
      hslash, hleads.walk_eq, FileTree.walkFrom_of_stand htarget, henters.walk_eq htarget]

end Path

/-! ## Discovery -/

namespace Discovery

open StructPadding.Path

variable {extensions : List String} {recursive : Bool}

/-- Where nothing stands in the way of a search, one is let into all folders that lead to what it finds. -/
theorem enters_of_holds {o : Opened} {f : Folder} {names : List String} {name : String} {node : Node}
    (h : Holds f.entries (names ++ [name]) node) (hclosed : o.closed = f.closed)
    (hnames : ∀ s ∈ names, recursive ∧ ¬ isIgnoredFolder s) (hclear : ∀ x, ¬ Blocked recursive o f.entries x) :
    ∃ g, f.Enters names g ∧ .named name node ∈ g.entries := by
  induction names generalizing f o with
  | nil =>
    cases h with
    | entry hmem => exact ⟨f, .refl f, hmem⟩
    | under _ hbelow => exact absurd rfl hbelow.ne_nil
  | cons s names ih =>
    obtain ⟨hs, hnames⟩ := List.forall_mem_cons.1 hnames
    generalize hpath : s :: names ++ [name] = path at h
    cases h with
    | entry => simp at hpath
    | @under _ inner s' path node hmem hbelow =>
      obtain ⟨rfl, rfl⟩ := List.cons.inj hpath
      cases hopened : o.inner s inner with
      | error x => exact absurd (.opening hmem hs hopened) (hclear x)
      | ok opened =>
        obtain ⟨hfolder, hopen⟩ := inner_eq_ok_iff.1 hopened
        obtain ⟨g, henters, hmem'⟩ := ih hbelow (of_ofFolder hfolder).2 hnames fun x hx =>
          hclear x (.inside hmem hs hopened hx)
        exact ⟨g, .step (hclosed ▸ hopen) hmem henters, hmem'⟩

/-- What a search finds is reached through folders that one is let into. -/
theorem enters_of_mem_ofEntries {o : Opened} {f : Folder} (hf : f.isProper) (hclosed : o.closed = f.closed)
    {ps : List Path} (h : ofEntries extensions recursive o f.entries = .ok ps) {p : Path} (hp : p ∈ ps) :
    ∃ names g s, f.Enters names g ∧ isEntryName s ∧ p = (names ++ [s]).foldl entry o.path := by
  have hanswers := answers_ofEntries extensions recursive o f.entries
  rw [h] at hanswers
  obtain ⟨names, s, text, hholds, -, hnames, rfl⟩ := (hanswers.1 p).1 hp
  obtain ⟨g, henters, hmem⟩ := enters_of_holds hholds hclosed hnames hanswers.2
  exact ⟨names, g, s, henters, (Folder.isProper_of_mem (henters.isProper hf).1 hmem).1, rfl⟩

/-- What a pattern finds is the file that it names, or below the folder that it names. -/
theorem of_mem_ofPattern {t : FileTree} {pattern : Pattern} {ps : List Path}
    (h : ofPattern extensions t pattern = .ok ps) :
    (∃ text, t.lookup pattern.root = .ok (.file text) ∧ ps = [pattern.root]) ∨
      ∃ f, t.lookup pattern.root = .ok (.folder f) ∧ ∀ p ∈ ps, ∃ names g s, f.Enters names g ∧ isEntryName s ∧
        p = (names ++ [s]).foldl entry pattern.root := by
  unfold ofPattern at h
  split at h
  · cases h
  · next text hlookup => exact .inl ⟨text, hlookup, (Except.ok.inj h).symm⟩
  · next f hlookup =>
    cases hopened : Opened.ofFolder t.room pattern.root f with
    | error x => simp [hopened, bind, Except.bind] at h
    | ok opened =>
      obtain ⟨hpath, hclosed⟩ := of_ofFolder hopened
      obtain ⟨-, here, above, hstand, hwalk⟩ := isPlain_of_lookup hlookup
      rcases FileTree.leads_of_walk hstand hwalk with ⟨_, _, _, hnode, htarget, -⟩ | ⟨_, _, _, _, hnode, _⟩
      case inr => cases hnode
      cases hnode
      simp only [hopened, bind, Except.bind] at h
      exact .inr ⟨f, hlookup, fun p hp =>
        hpath ▸ enters_of_mem_ofEntries (FileTree.isProper_of_stand htarget) hclosed h hp⟩
  · cases h

/-- A path that a pattern finds names an entry. -/
theorem names_of_mem_ofPattern {t : FileTree} {pattern : Pattern} {ps : List Path}
    (h : ofPattern extensions t pattern = .ok ps) {p : Path} (hp : p ∈ ps) : ∃ folder s, p.Names t folder s := by
  rcases of_mem_ofPattern h with ⟨text, hlookup, rfl⟩ | ⟨f, hlookup, hbelow⟩
  · obtain rfl := List.mem_singleton.1 hp
    exact names_of_lookup_file hlookup
  · obtain ⟨names, g, s, henters, hs, rfl⟩ := hbelow p hp
    obtain ⟨place, hplace⟩ := names_of_lookup_folder hlookup henters hs
    exact ⟨place, s, hplace⟩

end Discovery

end StructPadding
