-- SUMMARY: Finding the source files that patterns name.
import StructPadding.FileTree.Tree

/-!
# Discovery

A pattern names a file, a folder whose source files are meant, or with dots at its end everything below a
folder. Hidden and private names are left out below folders, and so are vendored packages and test data. A search ends
at the first folder that it cannot open or list, and at the first entry that it cannot tell for a file or a folder.
-/

namespace StructPadding

/-- Where a pattern leads. -/
structure Pattern where
  root : Path
  recursive : Bool

namespace Pattern

/-- The text without the slashes at its end. -/
def trimSlashes (cs : List Char) : List Char := (cs.reverse.dropWhile (· = '/')).reverse

/-- The text without its ending, if it ends so. -/
def withoutSuffix? (suffix text : List Char) : Option (List Char) :=
  if suffix.isSuffixOf text then some (text.take (text.length - suffix.length)) else none

/-- Read a pattern. Three dots at its end ask for the folders below as well. -/
def ofText (text : String) : Pattern :=
  let root (cs : List Char) : Path := if cs.isEmpty then ⟨"/"⟩ else ⟨String.ofList cs⟩
  match withoutSuffix? "...".toList text.toList with
  | some [] => ⟨⟨"."⟩, true⟩
  | some cs => ⟨root (trimSlashes cs), true⟩
  | none => ⟨root text.toList, false⟩

end Pattern

namespace Discovery

def isHidden (name : String) : Bool :=
  match name.toList.head? with
  | some c => c == '.' || c == '_'
  | none => false

def isIgnoredFolder (name : String) : Bool := name == "testdata" || name == "vendor" || isHidden name

def isSourceFile (extensions : List String) (name : String) : Bool :=
  !isHidden name && extensions.any fun e => e.toList.isSuffixOf name.toList

/-- A folder that is open to be searched. -/
structure Opened where
  path : Path
  /-- Why nothing in it can be opened, if that is so. -/
  closed : Option AccessError
  /-- How many more folders can be open at the same time. -/
  room : Nat

/-- Open the folder at a path. -/
def Opened.ofFolder (room : Nat) (path : Path) (f : Folder) : Except (Path × AccessError) Opened :=
  if FileTree.pathLimit < path.text.utf8ByteSize then .error (path, .nameTooLong)
  else
    match room with
    | 0 => .error (path, .tooManyOpen)
    | room + 1 => .ok ⟨path, f.closed, room⟩

/-- Open a folder in one that is open. -/
def Opened.inner (o : Opened) (name : String) (f : Folder) : Except (Path × AccessError) Opened :=
  match ofFolder o.room (o.path.entry name) f, o.closed with
  | .error x, _ => .error x
  | .ok _, some e => .error (o.path.entry name, e)
  | .ok opened, none => .ok opened

mutual

/-- The source files among the entries of an open folder and, if that is asked for, in the folders below, or the path
    that stands in the way. -/
def ofEntries (extensions : List String) (recursive : Bool) (o : Opened) :
    List Entry → Except (Path × AccessError) (List Path)
  | [] => .ok []
  | e :: rest => do
    let found ← ofEntry extensions recursive o e
    return found ++ (← ofEntries extensions recursive o rest)

def ofEntry (extensions : List String) (recursive : Bool) (o : Opened) :
    Entry → Except (Path × AccessError) (List Path)
  | .named name node => ofNode extensions recursive o name node
  | .fault e => .error (o.path, e)

def ofNode (extensions : List String) (recursive : Bool) (o : Opened) (name : String) :
    Node → Except (Path × AccessError) (List Path)
  | .file _ => .ok (if isSourceFile extensions name then [o.path.entry name] else [])
  | .folder ⟨closed, es⟩ =>
    if !recursive || isIgnoredFolder name then .ok []
    else do
      let opened ← o.inner name ⟨closed, es⟩
      ofEntries extensions recursive opened es
  | .lost e => .error (o.path.entry name, e)

end

/-- The files that a pattern names, or the path that stands in the way. -/
def ofPattern (extensions : List String) (t : FileTree) (p : Pattern) : Except (Path × AccessError) (List Path) :=
  match t.lookup p.root with
  | .error e => .error (p.root, e)
  | .ok (.file _) => .ok [p.root]
  | .ok (.folder f) => do
    let opened ← Opened.ofFolder t.room p.root f
    ofEntries extensions p.recursive opened f.entries
  | .ok (.lost e) => .error (p.root, e)

end Discovery

/-- The files that the patterns name, in order and each once. -/
def discover (extensions : List String) (t : FileTree) (patterns : List String) :
    Except (Path × AccessError) (List Path) := do
  let found ← patterns.mapM fun text => Discovery.ofPattern extensions t (.ofText text)
  return Path.normalize found.flatten

end StructPadding
