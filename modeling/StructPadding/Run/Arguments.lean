-- SUMMARY: The command line: options, flags and patterns.
import StructPadding.Text.Numeral
import StructPadding.Word

/-!
# Arguments

Options take a value, behind an equals sign or as the next argument; flags take none. Each is given at most
once. All other arguments are patterns, and so is everything behind two dashes.
-/

namespace StructPadding

inductive Format
  | text | json
  deriving DecidableEq, Repr

inductive Colour
  | auto | always | never
  deriving DecidableEq, Repr

def Format.ofName? : String → Option Format
  | "text" => some .text
  | "json" => some .json
  | _ => none

def Colour.ofName? : String → Option Colour
  | "auto" => some .auto
  | "always" => some .always
  | "never" => some .never
  | _ => none

/-- The command line, as far as it is given. -/
structure Arguments where
  patterns : List String := []
  arch : Option String := none
  wordSize : Option Word.Count := none
  maxAlign : Option Word.Count := none
  format : Option Format := none
  colour : Option Colour := none
  suggest : Bool := false
  verbose : Bool := false
  dumpTokens : Bool := false
  dumpFiles : Bool := false
  deriving DecidableEq, Repr

/-- What the command line asks for. -/
inductive Request
  | check (a : Arguments)
  | version
  /-- Nothing that is understood. -/
  | usage
  deriving DecidableEq, Repr

namespace Arguments

/-- An option with a value. -/
inductive Key
  | arch | wordSize | maxAlign | format | colour
  deriving DecidableEq, Repr

def Key.ofName? : String → Option Key
  | "arch" => some .arch
  | "word-size" => some .wordSize
  | "max-align" => some .maxAlign
  | "format" => some .format
  | "color" => some .colour
  | _ => none

inductive Flag
  | suggest | verbose | dumpTokens | dumpFiles | version
  deriving DecidableEq, Repr

def Flag.ofName? : String → Option Flag
  | "suggest" => some .suggest
  | "verbose" => some .verbose
  | "dump-tokens" => some .dumpTokens
  | "dump-ast" => some .dumpFiles
  | "version" => some .version
  | _ => none

def Flag.ofLetter? : Char → Option Flag
  | 'v' => some .verbose
  | 'V' => some .version
  | _ => none

/-- A count in decimal digits, with or without a plus sign. -/
def count? (s : String) : Option Word.Count :=
  let digits := match s.toList with
    | '+' :: cs => cs
    | cs => cs
  (Numeral.natural? 10 digits).bind fun n => if h : n ≤ Word.limit then some ⟨n, Nat.lt_succ_of_le h⟩ else none

/-- The value for a place that is still free. -/
def fill {α : Type} (place value : Option α) : Option (Option α) :=
  match place, value with
  | none, some v => some (some v)
  | _, _ => none

/-- Give an option its value; this fails for a second value and for one of the wrong form. -/
def set (a : Arguments) (key : Key) (value : String) : Option Arguments :=
  match key with
  | .arch => (fill a.arch (some value)).map fun arch => { a with arch }
  | .wordSize => (fill a.wordSize (count? value)).map fun wordSize => { a with wordSize }
  | .maxAlign => (fill a.maxAlign (count? value)).map fun maxAlign => { a with maxAlign }
  | .format => (fill a.format (Format.ofName? value)).map fun format => { a with format }
  | .colour => (fill a.colour (Colour.ofName? value)).map fun colour => { a with colour }

/-- Raise a flag; this fails for one that is raised already. -/
def raise (a : Arguments) : Flag → Option Arguments
  | .suggest => if a.suggest then none else some { a with suggest := true }
  | .verbose => if a.verbose then none else some { a with verbose := true }
  | .dumpTokens => if a.dumpTokens then none else some { a with dumpTokens := true }
  | .dumpFiles => if a.dumpFiles then none else some { a with dumpFiles := true }
  | .version => some a

/-- Raise the flags of a cluster of letters; asking for the version ends it. -/
def raiseLetters (a : Arguments) : List Char → Except Request Arguments
  | [] => .ok a
  | c :: cs =>
    match Flag.ofLetter? c with
    | none => .error .usage
    | some .version => .error .version
    | some flag =>
      match a.raise flag with
      | some a => raiseLetters a cs
      | none => .error .usage

/-- Take an argument behind two dashes: the arguments after it, and the option that the next one is the value
    of. -/
def takeLong (a : Arguments) (body : List Char) : Except Request (Arguments × Option Key) :=
  let name := String.ofList (body.takeWhile (· ≠ '='))
  let value := (body.dropWhile (· ≠ '=')).tail?.map String.ofList
  match Key.ofName? name, Flag.ofName? name, value with
  | some key, _, none => .ok (a, some key)
  | some key, _, some v => ((a.set key v).map (·, none)).elim (.error .usage) .ok
  | none, some .version, none => .error .version
  | none, some flag, none => ((a.raise flag).map (·, none)).elim (.error .usage) .ok
  | _, _, _ => .error .usage

/-- Take an argument that is no value. -/
def take (a : Arguments) (arg : String) : Except Request (Arguments × Option Key) :=
  match arg.toList with
  | '-' :: '-' :: body => a.takeLong body
  | '-' :: c :: cs => (a.raiseLetters (c :: cs)).map (·, none)
  | _ => .ok ({ a with patterns := a.patterns ++ [arg] }, none)

/-- Whether an argument can be a value: it does not begin like an option. -/
def isValue (arg : String) : Bool :=
  match arg.toList with
  | '-' :: _ :: _ => false
  | _ => true

/-- Read arguments, the first of which is the value of `pending` if there is one. -/
def read (a : Arguments) (pending : Option Key) : List String → Request
  | [] => if pending.isSome then .usage else .check a
  | arg :: rest =>
    match pending with
    | some key =>
      if isValue arg then
        match a.set key arg with
        | some a => read a none rest
        | none => .usage
      else .usage
    | none =>
      if arg = "--" then .check { a with patterns := a.patterns ++ rest }
      else
        match a.take arg with
        | .ok (a, pending) => read a pending rest
        | .error r => r

/-- What a command line asks for. -/
def ofList (args : List String) : Request := read {} none args

end Arguments

end StructPadding
