-- SUMMARY: Trees of files and folders, and finding what a path names.
import StructPadding.FileTree.Path

/-!
# File trees

A tree holds files and folders, from a root folder down, and one of its folders is the one that a program works in.
Absolute paths begin at the root, all others there. Not everything can be read: the text of a file may be out of reach,
one may not be let into a folder, and the listing of a folder may break off.
-/

namespace StructPadding

/-- Why a path cannot be read. -/
inductive AccessError
  | notFound
  | notFolder
  | isFolder
  | denied
  | nameTooLong
  | tooManyOpen
  | invalidName
  | notText
  | other (text : String)
  deriving DecidableEq, Repr

def AccessError.message : AccessError → String
  | .notFound => "No such file or directory (os error 2)"
  | .notFolder => "Not a directory (os error 20)"
  | .isFolder => "Is a directory (os error 21)"
  | .denied => "Permission denied (os error 13)"
  | .nameTooLong => "File name too long (os error 36)"
  | .tooManyOpen => "Too many open files (os error 24)"
  | .invalidName => "file name contained an unexpected NUL byte"
  | .notText => "stream did not contain valid UTF-8"
  | .other text => text

mutual

inductive Node
  /-- A file with its text, or why that cannot be read. -/
  | file (text : Except AccessError String)
  | folder (f : Folder)
  /-- Something of which not even the kind can be told. -/
  | lost (reason : AccessError)

inductive Entry
  | named (name : String) (node : Node)
  /-- Where the listing of a folder breaks off. -/
  | fault (reason : AccessError)

structure Folder where
  /-- Why one is not let into the folder. It may be listed all the same. -/
  closed : Option AccessError
  entries : List Entry

end

instance : Inhabited Folder := ⟨⟨none, []⟩⟩

def Entry.name? : Entry → Option String
  | .named name _ => some name
  | .fault _ => none

/-! ## Names -/

/-- The bytes that one name in a path can have. -/
def nameLimit : Nat := 255

/-- Whether a text can be the name of an entry of a folder. -/
def isEntryName (s : String) : Bool :=
  s != "" && s != "." && s != ".." && !s.toList.contains '/' && !s.toList.contains '\x00' &&
    s.utf8ByteSize ≤ nameLimit

mutual

/-- Whether the entries of all folders have names that entries can have, and no two of a folder the same. -/
def Node.isProper : Node → Bool
  | .file _ => true
  | .folder f => f.isProper
  | .lost _ => true

def Entry.isProper : Entry → Bool
  | .named name node => isEntryName name && node.isProper
  | .fault _ => true

def Entry.areProper : List Entry → Bool
  | [] => true
  | e :: es => e.isProper && e.name?.all (fun name => es.all (·.name? != some name)) && Entry.areProper es

def Folder.isProper : Folder → Bool
  | ⟨_, es⟩ => Entry.areProper es

end

namespace Entry

theorem areProper_iff {es : List Entry} :
    areProper es ↔
      (∀ e ∈ es, e.isProper) ∧ es.Pairwise fun e e' => ∀ name, e.name? = some name → e'.name? ≠ some name := by
  induction es with
  | nil => simp [areProper]
  | cons e es ih => cases he : e.name? <;> simp [areProper, ih, he] <;> grind

end Entry

namespace Folder

theorem isProper_iff {f : Folder} : f.isProper ↔ Entry.areProper f.entries := by
  cases f
  rw [isProper]

/-- What has a name in a folder. -/
def node? (f : Folder) (name : String) : Option Node :=
  f.entries.findSome? fun
    | .named s node => if s = name then some node else none
    | .fault _ => none

/-- What has a name among entries. -/
theorem node?_cons (closed : Option AccessError) (e : Entry) (es : List Entry) (s : String) :
    node? ⟨closed, e :: es⟩ s =
      match e with
      | .named name node => if name = s then some node else node? ⟨closed, es⟩ s
      | .fault _ => node? ⟨closed, es⟩ s := by
  cases e with
  | fault => simp [node?]
  | named name node => by_cases h : name = s <;> simp [node?, h]

/-- The folder with a node put in the place of those of its name. -/
def put (f : Folder) (name : String) (node : Node) : Folder :=
  { f with entries := f.entries.filter (·.name? != some name) ++ [.named name node] }

/-- The folder of the given name, empty if there is none. -/
def inner (f : Folder) (name : String) : Folder :=
  match f.node? name with
  | some (.folder g) => g
  | _ => ⟨none, []⟩

/-- The folder with a node at the end of a chain of folders, which are made where they are missing. -/
def insert (f : Folder) (names : List String) (node : Node) : Folder :=
  match names with
  | [] => f
  | [name] => f.put name node
  | name :: rest => f.put name (.folder ((f.inner name).insert rest node))

theorem isProper_of_node? {f : Folder} (hf : f.isProper) {name : String} {node : Node} (h : f.node? name = some node) :
    node.isProper := by
  obtain ⟨e, he, hnode⟩ := List.exists_of_findSome?_eq_some h
  have hproper := (Entry.areProper_iff.1 (isProper_iff.1 hf)).1 e he
  cases e <;> simp_all [Entry.isProper]

theorem isProper_put {f : Folder} (hf : f.isProper) {name : String} {node : Node} (hname : isEntryName name)
    (hnode : node.isProper) : (f.put name node).isProper := by
  obtain ⟨hentries, hnames⟩ := Entry.areProper_iff.1 (isProper_iff.1 hf)
  refine Entry.areProper_iff.2 ⟨fun e he => ?_,
    List.pairwise_append.2 ⟨hnames.sublist List.filter_sublist, by simp, ?_⟩⟩
  · rcases List.mem_append.1 he with he | he
    · exact hentries e (List.mem_filter.1 he).1
    · obtain rfl := List.mem_singleton.1 he
      simp [Entry.isProper, hname, hnode]
  · intro e he e' he' s hs
    obtain rfl := List.mem_singleton.1 he'
    have hne := (List.mem_filter.1 he).2
    grind [Entry.name?]

theorem isProper_inner {f : Folder} (hf : f.isProper) (name : String) : (f.inner name).isProper := by
  unfold inner
  split
  · next g h => exact isProper_of_node? hf h
  · rfl

theorem isProper_insert {f : Folder} (hf : f.isProper) {names : List String} {node : Node}
    (hnames : ∀ s ∈ names, isEntryName s) (hnode : node.isProper) : (f.insert names node).isProper := by
  fun_induction insert f names node with
  | case1 => exact hf
  | case2 f name => exact isProper_put hf (hnames name (List.mem_cons_self ..)) hnode
  | case3 f name rest _ ih =>
    obtain ⟨hname, hrest⟩ := List.forall_mem_cons.1 hnames
    exact isProper_put hf hname (ih (isProper_inner hf name) hrest)

end Folder

/-! ## Trees -/

/-- A place in a tree, by the names that lead to it from the root, the last first. -/
abbrev Place := List String

structure FileTree where
  root : Folder
  /-- The place of the folder that the program works in. -/
  working : Place
  /-- How many folders can be open at the same time. -/
  room : Nat
  proper : root.isProper

namespace FileTree

/-- The tree that holds nothing but a folder to work in. -/
def ofWorking (f : Folder) (h : f.isProper) : FileTree where
  root := Folder.put ⟨none, []⟩ ".tree" (.folder f)
  working := [".tree"]
  room := 1000
  proper := Folder.isProper_put rfl rfl (by rwa [Node.isProper])

/-- Add a file at a path, or an empty folder where the path ends in a slash. Nothing can be put at a path with pieces
    that are no names. -/
def add (f : {f : Folder // f.isProper}) (path : Path) (text : Option String) : {f : Folder // f.isProper} :=
  let names := path.pieces.filter fun piece => piece != "" && piece != "."
  if hnames : ∀ s ∈ names, isEntryName s then
    if path.pieces.getLast? = some "" then
      let made := names.foldl (fun g name => ⟨g.1.inner name, Folder.isProper_inner g.2 name⟩) f
      ⟨f.1.insert names (.folder made.1), Folder.isProper_insert f.2 hnames (by rw [Node.isProper]; exact made.2)⟩
    else
      ⟨f.1.insert names (.file (text.elim (.error .notText) .ok)), Folder.isProper_insert f.2 hnames rfl⟩
  else f

/-- The tree with the given files and empty folders in the folder to work in. -/
def ofEntries (entries : List (Path × Option String)) : FileTree :=
  let made := entries.foldl (fun f (path, text) => add f path text) ⟨⟨none, []⟩, rfl⟩
  ofWorking made.1 made.2

/-! ## Finding -/

/-- The bytes that a whole path can have. -/
def pathLimit : Nat := 4095

/-- Follow the pieces of a path from a folder whose parents are `above`, the nearest first. The root is its own
    parent. -/
def walk (here : Folder) (above : List Folder) : List String → Except AccessError Node
  | [] => .ok (.folder here)
  | piece :: rest =>
    if piece = "" then walk here above rest
    else
      match here.closed with
      | some e => .error e
      | none =>
        if piece = "." then walk here above rest
        else if piece = ".." then
          match above with
          | [] => walk here [] rest
          | parent :: above => walk parent above rest
        else if nameLimit < piece.utf8ByteSize then .error .nameTooLong
        else
          match here.node? piece with
          | none => .error .notFound
          | some (.folder f) => walk f (here :: above) rest
          | some (.file text) => if rest.isEmpty then .ok (.file text) else .error .notFolder
          | some (.lost e) => .error e

/-- The folder at a place, and the folders above it, the nearest first. -/
def stand (t : FileTree) : Place → Option (Folder × List Folder)
  | [] => some (t.root, [])
  | name :: place => do
    let (here, above) ← t.stand place
    match here.node? name with
    | some (.folder f) => some (f, here :: above)
    | _ => none

/-- The place of the folder that a path begins in. -/
def start (t : FileTree) (p : Path) : Place := if p.isAbsolute then [] else t.working

/-- Follow the pieces of a path from the folder at a place. -/
def walkFrom (t : FileTree) (place : Place) (pieces : List String) : Except AccessError Node :=
  match t.stand place with
  | some (here, above) => walk here above pieces
  | none => .error .notFound

/-- What a path names. -/
def lookup (t : FileTree) (p : Path) : Except AccessError Node :=
  if p.text.toList.contains '\x00' then .error .invalidName
  else if pathLimit < p.text.utf8ByteSize then .error .nameTooLong
  else if p.text = "" then .error .notFound
  else t.walkFrom (t.start p) p.pieces

/-- The text of the file that a path names. -/
def read (t : FileTree) (p : Path) : Except AccessError String := do
  match ← t.lookup p with
  | .file text => text
  | .folder _ => throw .isFolder
  | .lost e => throw e

end FileTree

end StructPadding
