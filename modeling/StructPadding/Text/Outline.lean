-- SUMMARY: Labelled trees and their text, on one line or indented.

/-!
# Outlines

The structure of a value for a reader: a tree of names, labels and items. It is written on one line, or with
each item on a line of its own.
-/

namespace StructPadding

/-- How the items of a group are enclosed. -/
inductive Bracket
  | round | square | curly
  deriving DecidableEq, Repr

def Bracket.opening : Bracket → String
  | .round => "(" | .square => "[" | .curly => " \x7b"

def Bracket.closing : Bracket → String
  | .round => ")" | .square => "]" | .curly => "\x7d"

/-- What stands inside the brackets of a group on one line, on either side. -/
def Bracket.margin : Bracket → String
  | .curly => " "
  | _ => ""

inductive Outline
  | atom (text : String)
  /-- A name with items in brackets, each with its label and the label's colon, or with neither. -/
  | group (name : String) (bracket : Bracket) (items : List (String × Outline))

namespace Outline

def number (n : Int) : Outline := .atom (toString n)

def bool (b : Bool) : Outline := .atom (if b then "true" else "false")

def list (items : List Outline) : Outline := .group "" .square (items.map ("", ·))

def tuple (items : List Outline) : Outline := .group "" .round (items.map ("", ·))

/-- A constructor with unnamed parts. -/
def variant (name : String) (parts : List Outline) : Outline := .group name .round (parts.map ("", ·))

def option : Option Outline → Outline
  | none => .atom "None"
  | some o => variant "Some" [o]

/-- A value with labelled fields. -/
def record (name : String) (fields : List (String × Outline)) : Outline :=
  .group name .curly (fields.map fun (label, o) => (label ++ ": ", o))

mutual

/-- The outline on one line. -/
def line : Outline → String
  | .atom text => text
  | .group name bracket items =>
    name ++ bracket.opening ++ bracket.margin ++ ", ".intercalate (lineItems items) ++ bracket.margin ++
      bracket.closing

def lineItems : List (String × Outline) → List String
  | [] => []
  | (label, o) :: rest => (label ++ o.line) :: lineItems rest

end

/-- Put a text in front of the first line and another behind the last one. -/
def surround (before after : String) : List String → List String
  | [] => [before ++ after]
  | [l] => [before ++ l ++ after]
  | l :: rest => (before ++ l) :: (rest.dropLast ++ [rest.getLast?.getD "" ++ after])

def indent (l : String) : String := "    " ++ l

mutual

/-- The lines of the outline, one item on each. -/
def lines : Outline → List String
  | .atom text => [text]
  | .group name bracket items =>
    if items.isEmpty then [name ++ bracket.opening ++ bracket.closing]
    else (name ++ bracket.opening) :: (itemLines items ++ [bracket.closing])

def itemLines : List (String × Outline) → List String
  | [] => []
  | (label, o) :: rest => (surround label "," o.lines).map indent ++ itemLines rest

end

/-- The outline with one item on each line. -/
def page (o : Outline) : String := "\n".intercalate o.lines

end Outline

end StructPadding
