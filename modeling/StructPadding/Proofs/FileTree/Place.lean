-- SUMMARY: The place in a tree that a path names: what is found there depends on the place, not on the spelling.
import Mathlib.Data.List.Basic
import StructPadding.FileTree.Discover

/-!
# Places

A place is given by the names that lead to it from the root of the tree. Many paths name the same place: absolute ones
and those that begin in the folder to work in, and steps that go nowhere and steps that are taken back make no
difference. Where following a path leads to something, the names of its place lead to the same.
-/

namespace StructPadding

/-! ## Steps -/

/-- Where a step leads from a folder. The root is its own parent. -/
def Component.step (folder : Place) : Component → Place
  | .root => []
  | .current => folder
  | .parent => folder.tail
  | .name s => s :: folder

/-- Where steps lead from a folder, one after the other. -/
def Component.follow (folder : Place) (steps : List Component) : Place := steps.foldl Component.step folder

theorem Component.follow_append (folder : Place) (steps rest : List Component) :
    follow folder (steps ++ rest) = follow (follow folder steps) rest := List.foldl_append

theorem Component.follow_names (folder : Place) (names : List String) :
    follow folder (names.map name) = names.reverse ++ folder := by
  induction names generalizing folder with
  | nil => rfl
  | cons s names ih => simpa [follow, step] using ih (s :: folder)

namespace FileTree

/-- The place that a path leads to. -/
def place (t : FileTree) (p : Path) : Place := Component.follow t.working p.components

/-- The place of the folder that holds the path. -/
def folder (t : FileTree) (p : Path) : Place := Component.follow t.working p.directory

end FileTree

theorem isEntryName_iff {s : String} :
    isEntryName s ↔
      s ≠ "" ∧ s ≠ "." ∧ s ≠ ".." ∧ '/' ∉ s.toList ∧ '\x00' ∉ s.toList ∧ s.utf8ByteSize ≤ nameLimit := by
  simp [isEntryName, and_assoc]

namespace Path

theorem component?_eq_some {piece : String} (h : piece ≠ "") (hdot : piece ≠ ".") (hup : piece ≠ "..") :
    component? piece = some (.name piece) := by
  unfold component?
  split <;> simp_all

theorem component?_name {s : String} (h : isEntryName s) : component? s = some (.name s) :=
  have h := isEntryName_iff.1 h
  component?_eq_some h.1 h.2.1 h.2.2.1

/-! ## Entries -/

/-- The pieces of a text between its slashes. -/
theorem pieces_append (p : Path) {cs ds : List Char} (h : p.text.toList = cs ++ '/' :: ds) :
    p.pieces = (⟨String.ofList cs⟩ : Path).pieces ++ (⟨String.ofList ds⟩ : Path).pieces := by
  simp [pieces, h, List.splitOn_eq_splitOnP, List.splitOnP_append_cons]

theorem pieces_eq_singleton {s : String} (h : isEntryName s) : (⟨s⟩ : Path).pieces = [s] := by
  have hslash : '/' ∉ s.toList := (isEntryName_iff.1 h).2.2.2.1
  have hsplit : s.toList.splitOn '/' = [s.toList] := by
    rw [List.splitOn_eq_splitOnP]
    exact List.splitOnP_eq_singleton fun c hc => by
      simpa using fun heq : c = '/' => hslash (heq ▸ hc)
  simp [pieces, hsplit]

/-- The text of the path of an entry, and that of the path of its folder. -/
theorem text_entry (folder : Path) (s : String) :
    ∃ cs, (folder.entry s).text.toList = cs ++ '/' :: s.toList ∧
      (folder.text.toList = cs ∨ folder.text.toList = cs ++ ['/']) := by
  unfold entry
  split
  · next h =>
    obtain ⟨cs, hcs⟩ := List.getLast?_eq_some_iff.1 h
    exact ⟨cs, by simp [hcs], .inr hcs⟩
  · exact ⟨folder.text.toList, by simp, .inl rfl⟩

/-- The pieces of the path of an entry are those of the path of its folder, but for a slash at its end. -/
theorem pieces_entry (folder : Path) {s : String} (hs : isEntryName s) :
    ∃ pieces, pieces ≠ [] ∧ (folder.entry s).pieces = pieces ++ [s] ∧
      (folder.pieces = pieces ∨ folder.pieces = pieces ++ [""]) := by
  obtain ⟨cs, hentry, hfolder⟩ := text_entry folder s
  refine ⟨(⟨String.ofList cs⟩ : Path).pieces, by simp [pieces, List.splitOn_ne_nil], ?_, ?_⟩
  · rw [pieces_append _ hentry, String.ofList_toList, pieces_eq_singleton hs]
  · rcases hfolder with h | h
    · exact .inl (by simp [pieces, h])
    · exact .inr (by rw [pieces_append _ h]; rfl)

/-- Whether a path is text that a path can be. -/
structure IsPlain (p : Path) : Prop where
  text_ne : p.text ≠ ""
  valid : '\x00' ∉ p.text.toList

theorem IsPlain.entry {folder : Path} (h : folder.IsPlain) {s : String} (hs : isEntryName s) :
    (folder.entry s).IsPlain := by
  have hvalid : '\x00' ∉ s.toList := (isEntryName_iff.1 hs).2.2.2.2.1
  obtain ⟨cs, hentry, hfolder⟩ := text_entry folder s
  have hfolderValid := h.valid
  refine ⟨fun hempty => by simp [hempty] at hentry, ?_⟩
  rcases hfolder with hf | hf <;> simp_all

theorem isAbsolute_entry {folder : Path} (h : folder.IsPlain) (s : String) :
    (folder.entry s).isAbsolute = folder.isAbsolute := by
  obtain ⟨cs, hentry, hfolder⟩ := text_entry folder s
  cases cs with
  | nil =>
    rcases hfolder with hf | hf
    · exact absurd (String.toList_inj.1 hf) h.text_ne
    · simp [isAbsolute, hentry, hf]
  | cons c cs => rcases hfolder with hf | hf <;> simp [isAbsolute, hentry, hf]

theorem components_entry {folder : Path} (h : folder.IsPlain) {s : String} (hs : isEntryName s) :
    (folder.entry s).components = folder.components ++ [.name s] := by
  obtain ⟨pieces, hpieces, hentry, hfolder⟩ := pieces_entry folder hs
  have hhead : (folder.entry s).pieces.head? = folder.pieces.head? := by
    obtain ⟨piece, pieces, rfl⟩ := List.exists_cons_of_ne_nil hpieces
    rcases hfolder with hf | hf <;> simp [hentry, hf]
  have hcomponents : (folder.entry s).pieces.filterMap component? =
      folder.pieces.filterMap component? ++ [.name s] := by
    have hlast : [s].filterMap component? = [.name s] := List.filterMap_cons_some (component?_name hs)
    have hskip : [""].filterMap component? = [] := rfl
    rcases hfolder with hf | hf <;> simp only [hentry, hf, List.filterMap_append, hlast, hskip, List.append_nil]
  simp only [components, isAbsolute_entry h, hhead, hcomponents]
  split
  · rfl
  split <;> rfl

/-! ## Paths below a folder -/

section

variable {folder : Path} {names : List String}

theorem isPlain_entries (h : folder.IsPlain) (hnames : ∀ s ∈ names, isEntryName s) :
    (names.foldl entry folder).IsPlain := by
  induction names generalizing folder with
  | nil => exact h
  | cons s names ih =>
    obtain ⟨hs, hnames⟩ := List.forall_mem_cons.1 hnames
    exact ih (h.entry hs) hnames

theorem isAbsolute_entries (h : folder.IsPlain) (hnames : ∀ s ∈ names, isEntryName s) :
    (names.foldl entry folder).isAbsolute = folder.isAbsolute := by
  induction names generalizing folder with
  | nil => rfl
  | cons s names ih =>
    obtain ⟨hs, hnames⟩ := List.forall_mem_cons.1 hnames
    rw [List.foldl_cons, ih (h.entry hs) hnames, isAbsolute_entry h]

theorem components_entries (h : folder.IsPlain) (hnames : ∀ s ∈ names, isEntryName s) :
    (names.foldl entry folder).components = folder.components ++ names.map .name := by
  induction names generalizing folder with
  | nil => exact (List.append_nil _).symm
  | cons s names ih =>
    obtain ⟨hs, hnames⟩ := List.forall_mem_cons.1 hnames
    rw [List.foldl_cons, ih (h.entry hs) hnames, components_entry h hs, List.map_cons, List.append_assoc,
      List.singleton_append]

/-- The pieces of a path below a folder are those of the path of the folder, but for a slash at its end, and then the
    names that lead to it. -/
theorem pieces_entries (folder : Path) (hne : names ≠ []) (hnames : ∀ s ∈ names, isEntryName s) :
    ∃ pieces, (names.foldl entry folder).pieces = pieces ++ names ∧
      (folder.pieces = pieces ∨ folder.pieces = pieces ++ [""]) := by
  induction names generalizing folder with
  | nil => exact absurd rfl hne
  | cons s names ih =>
    obtain ⟨hs, hnames⟩ := List.forall_mem_cons.1 hnames
    obtain ⟨pieces, -, hentry, hfolder⟩ := pieces_entry folder hs
    refine ⟨pieces, ?_, hfolder⟩
    by_cases hrest : names = []
    · rw [hrest]
      exact hentry
    · obtain ⟨pieces', hbelow, hsame⟩ := ih (folder.entry s) hrest hnames
      have hpieces : pieces' = pieces ++ [s] := by
        rcases hsame with hsame | hsame
        · exact hsame.symm.trans hentry
        · -- the path of the entry ends in a name and not in a slash
          obtain ⟨-, hlast⟩ := List.append_inj' (hentry.symm.trans hsame) rfl
          exact absurd (List.cons.inj hlast).1 (isEntryName_iff.1 hs).1
      rw [List.foldl_cons, hbelow, hpieces, List.append_assoc, List.singleton_append]

end

end Path

/-! ## Walks -/

namespace FileTree

open StructPadding.Path

variable {t : FileTree} {here : Folder} {above : List Folder} {place : Place}

theorem walkFrom_of_stand (h : t.stand place = some (here, above)) (pieces : List String) :
    t.walkFrom place pieces = walk here above pieces := by
  simp [walkFrom, h]

/-- The names that lead to a folder lead on from there to what it holds. -/
theorem stand_cons {s : String} {f : Folder} (h : t.stand place = some (here, above))
    (hs : here.node? s = some (.folder f)) : t.stand (s :: place) = some (f, here :: above) := by
  simp [stand, h, hs]

/-- The folder above one that is not the root. -/
theorem stand_tail {parent : Folder} (h : t.stand place = some (here, parent :: above)) :
    t.stand place.tail = some (parent, above) := by
  cases place with
  | nil => simp [stand] at h
  | cons s place =>
    simp only [stand, Option.bind_eq_bind, Option.bind_eq_some_iff, Prod.exists] at h
    obtain ⟨here', above', hstand, h⟩ := h
    split at h
    · cases h
      exact hstand
    · cases h

/-- Above the root there is nothing. -/
theorem stand_nil (h : t.stand place = some (here, [])) : place = [] := by
  cases place with
  | nil => rfl
  | cons s place =>
    simp only [stand, Option.bind_eq_bind, Option.bind_eq_some_iff, Prod.exists] at h
    obtain ⟨here', above', -, h⟩ := h
    split at h <;> cases h

/-- What is found in a proper tree is proper. -/
theorem isProper_of_stand (h : t.stand place = some (here, above)) : here.isProper := by
  induction place generalizing here above with
  | nil =>
    cases h
    exact t.proper
  | cons s place ih =>
    simp only [stand, Option.bind_eq_bind, Option.bind_eq_some_iff, Prod.exists] at h
    obtain ⟨here', above', hstand, h⟩ := h
    split at h
    · next f hnode =>
      cases h
      exact Folder.isProper_of_node? (ih hstand) hnode
    · cases h

/-- Whether following pieces leads from one folder of a tree to another. -/
structure Leads (t : FileTree) (here : Folder) (above : List Folder) (place : Place) (pieces : List String)
    (target : Place) : Prop where
  steps : Component.follow place (pieces.filterMap component?) = target
  walk_eq : ∀ rest, walk here above (pieces ++ rest) = t.walkFrom target rest

theorem Leads.cons {place' target : Place} {pieces : List String} {piece : String} {here' : Folder}
    {above' : List Folder} (h : Leads t here' above' place' pieces target)
    (hstep : Component.follow place (component? piece).toList = place')
    (hwalk : ∀ rest, walk here above (piece :: rest) = walk here' above' rest) :
    Leads t here above place (piece :: pieces) target where
  steps := by
    have hcons : (piece :: pieces).filterMap component? = (component? piece).toList ++ pieces.filterMap component? := by
      cases hc : component? piece <;> simp [hc]
    rw [hcons, Component.follow_append, hstep]
    exact h.steps
  walk_eq rest := by rw [List.cons_append, hwalk, h.walk_eq]

/-- A piece that is followed to something leads to a folder, or is the last and the name of a file. -/
theorem stands_or_file {pieces : List String} {piece : String} {node : Node}
    (hstand : t.stand place = some (here, above)) (h : walk here above (piece :: pieces) = .ok node) :
    (∃ place' here' above', t.stand place' = some (here', above') ∧
      Component.follow place (component? piece).toList = place' ∧
      ∀ rest, walk here above (piece :: rest) = walk here' above' rest) ∨
    ∃ text, node = .file text ∧ pieces = [] ∧ component? piece = some (.name piece) := by
  by_cases hempty : piece = ""
  · subst hempty
    exact .inl ⟨place, here, above, hstand, rfl, fun rest => by simp [walk]⟩
  simp only [walk, hempty, if_false] at h
  split at h
  · cases h
  next hopen =>
  by_cases hdot : piece = "."
  · subst hdot
    exact .inl ⟨place, here, above, hstand, rfl, fun rest => by simp [walk, hopen]⟩
  by_cases hup : piece = ".."
  · subst hup
    cases above with
    | nil =>
      obtain rfl := stand_nil hstand
      exact .inl ⟨[], here, [], hstand, rfl, fun rest => by simp [walk, hopen]⟩
    | cons parent above =>
      exact .inl ⟨place.tail, parent, above, stand_tail hstand, rfl, fun rest => by simp [walk, hopen]⟩
  simp only [hdot, hup, if_false] at h
  split at h
  · cases h
  next hlimit =>
  have hname := component?_eq_some hempty hdot hup
  split at h
  · cases h
  · next f hnode =>
    refine .inl ⟨piece :: place, f, here :: above, stand_cons hstand hnode, by rw [hname]; rfl, fun rest => ?_⟩
    simp only [walk, hempty, hopen, hdot, hup, hlimit, hnode, if_false]
  · next text hnode =>
    split at h
    · next hlast => exact .inr ⟨text, (Except.ok.inj h).symm, List.isEmpty_iff.1 hlast, hname⟩
    · cases h
  · cases h

/-- What is found is a folder, to which all pieces lead, or a file, to whose folder all pieces but the last lead, which
    is the name of the file. -/
theorem leads_of_walk {pieces : List String} {node : Node} (hstand : t.stand place = some (here, above))
    (h : walk here above pieces = .ok node) :
    (∃ target f above', node = .folder f ∧ t.stand target = some (f, above') ∧ Leads t here above place pieces target) ∨
      ∃ target init s text, node = .file text ∧ pieces = init ++ [s] ∧ component? s = some (.name s) ∧
        Leads t here above place init target := by
  have hrefl : Leads t here above place [] place := ⟨rfl, fun rest => (walkFrom_of_stand hstand rest).symm⟩
  induction pieces generalizing here above place with
  | nil => exact .inl ⟨place, here, above, (Except.ok.inj h).symm, hstand, hrefl⟩
  | cons piece rest ih =>
    rcases stands_or_file hstand h with ⟨place', here', above', hstand', hstep, hwalk⟩ | ⟨text, hfile, rfl, hname⟩
    · rcases ih hstand' (hwalk rest ▸ h) ⟨rfl, fun rest => (walkFrom_of_stand hstand' rest).symm⟩ with
        ⟨target, f, above'', hnode, htarget, hleads⟩ | ⟨target, init, s, text, hnode, hrest, hs, hleads⟩
      · exact .inl ⟨target, f, above'', hnode, htarget, hleads.cons hstep hwalk⟩
      · exact .inr ⟨target, piece :: init, s, text, hnode, by rw [hrest]; rfl, hs, hleads.cons hstep hwalk⟩
    · exact .inr ⟨place, [], piece, text, hfile, rfl, hname, hrefl⟩

/-- A slash at the end of a path makes no difference before something else. -/
theorem walk_append_slash (pieces : List String) {rest : List String} (hrest : rest ≠ []) :
    walk here above (pieces ++ "" :: rest) = walk here above (pieces ++ rest) := by
  induction pieces generalizing here above with
  | nil => simp [walk]
  | cons piece pieces ih =>
    have hlast (l : List String) : (l ++ rest).isEmpty = false := by simp [hrest]
    have hlast' (l : List String) : (l ++ "" :: rest).isEmpty = false := by simp
    simp only [List.cons_append, walk, ih, hlast, hlast']

end FileTree

end StructPadding
