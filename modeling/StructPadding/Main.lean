-- SUMMARY: The command line program.
import StructPadding.Run.Program

/-!
# Main

Reads from disk what the patterns on the command line lead to, runs the program on it and prints what it leaves.
-/

open StructPadding

/-! ## What is read -/

/-- What is wanted of the folder at a place: to pass through it, or to search it, if need be with the folders below. -/
inductive Wish
  | pass
  | search (recursive : Bool)

/-- The places that pieces of a path lead to from a folder, one after the other. -/
def placesFrom (folder : Place) : List String → List Place
  | [] => [folder]
  | piece :: rest =>
    let next := match Path.component? piece with
      | some .parent => folder.tail
      | some (.name s) => s :: folder
      | _ => folder
    folder :: placesFrom next rest

/-- What a pattern wants of which places, given by the names that lead there from the root. -/
def wishesOf (working : Place) (p : Pattern) : List (List String × Wish) :=
  let places := placesFrom (if p.root.isAbsolute then [] else working) p.root.pieces
  places.map (fun place => (place.reverse, .pass)) ++
    places.getLast?.toList.map fun place => (place.reverse, .search p.recursive)

/-! ## Reading -/

def accessError : IO.Error → AccessError
  | .noFileOrDirectory .. => .notFound
  | .permissionDenied .. => .denied
  | .resourceExhausted .. => .tooManyOpen
  | e => .other (toString e)

def attempt {α : Type} (act : IO α) : IO (Except AccessError α) := do
  match ← act.toBaseIO with
  | .ok a => return .ok a
  | .error e => return .error (accessError e)

def loadFile (e : IO.FS.DirEntry) : IO Node := do
  match ← attempt (IO.FS.readBinFile e.path) with
  | .ok bytes => return .file ((String.fromUTF8? bytes).elim (.error .notText) .ok)
  | .error reason => return .file (.error reason)

mutual

/-- The folder on disk with what is wanted of it. -/
partial def loadFolder (here : IO.FS.DirEntry) (wishes : List (List String × Wish)) : IO Folder := do
  let inside : IO.FS.DirEntry := ⟨here.path, "."⟩
  let closed := match ← attempt inside.path.metadata with
    | .ok _ => none
    | .error reason => some reason
  let searched := wishes.any fun (names, wish) => names.isEmpty && wish matches .search _
  let recursive := wishes.any fun (names, wish) => names.isEmpty && wish matches .search true
  let wanted := wishes.filterMap (·.1.head?)
  let (listed, faults) ← if searched then do
      match ← attempt here.path.readDir with
      | .ok found => pure (found.toList.map (·.fileName), [])
      | .error reason => pure ([], [.fault reason])
    else pure ([], [])
  let entries ← (listed ++ wanted.filter (!listed.contains ·)).eraseDups.mapM fun name => do
    let below := wishes.filterMap fun (names, wish) =>
      if names.head? = some name then some (names.tail, wish) else none
    let searched := if recursive && !Discovery.isIgnoredFolder name then [([], .search true)] else []
    loadEntry ⟨here.path, name⟩ (below ++ searched)
  return ⟨closed, entries.flatten ++ faults⟩

/-- The entry on disk with what is wanted of it, if there is one. -/
partial def loadEntry (e : IO.FS.DirEntry) (wishes : List (List String × Wish)) : IO (List Entry) := do
  let kind ← attempt (if wishes.isEmpty then e.path.symlinkMetadata else e.path.metadata)
  match kind with
  | .error .notFound => return []
  | .error reason => return [.named e.fileName (.lost reason)]
  | .ok data =>
    if data.type matches .dir then
      return [.named e.fileName (.folder (← loadFolder e wishes))]
    else return [.named e.fileName (← loadFile e)]

end

/-- The tree on disk with what the patterns lead to. -/
def loadTree (patterns : List Pattern) (room : Nat) : IO (Option FileTree) := do
  let working := ((← IO.FS.realPath ".").components.filter (· ≠ "")).reverse
  let root ← loadFolder ⟨← IO.FS.realPath "/", ""⟩ ((working.reverse, .pass) :: patterns.flatMap (wishesOf working))
  return if proper : root.isProper then some ⟨root, working, room, proper⟩ else none

/-- How many files the system lets the program have open, without those that it is born with. -/
def loadRoom : IO Nat := do
  let limits ← attempt (IO.FS.lines "/proc/self/limits")
  let soft := limits.toOption.bind fun lines => (lines.toList.find? (·.startsWith "Max open files")).bind fun line =>
    ((line.splitOn " ").filterMap (·.toNat?)).head?
  return soft.getD 1024 - 3

def main (args : List String) : IO UInt32 := do
  let patterns := match Arguments.ofList args with
    | .check a => if a.patterns.isEmpty then ["."] else a.patterns
    | _ => []
  match ← loadTree (patterns.map .ofText) (← loadRoom) with
  | none => throw (.userError "names of files that no path can spell")
  | some tree =>
    let ended := Program.run tree args (← IO.getEnv "GOARCH")
    IO.print ended.output
    IO.eprint ended.errorOutput
    return ended.exitCode.toUInt32
