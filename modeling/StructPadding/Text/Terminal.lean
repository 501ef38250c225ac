-- SUMMARY: What a terminal shows of a text: control sequences and controls taken out.

/-!
# Terminal text

Control characters are not shown, and some of them begin sequences that are not shown either. `visible` keeps of a
text what is shown. It leaves plain text as it is (`visible_of_isText`).
-/

namespace StructPadding.Terminal

/-- Controls that are blank space: tabs, ends of lines and of pages. -/
def isBlankControl (c : Char) : Bool := c == '\t' || c == '\n' || c == '\x0c' || c == '\r'

/-- Whether a character can be shown. Controls other than blank space cannot. -/
def isText (c : Char) : Bool := isBlankControl c || (0x20 ≤ c.toNat && c != '\x7f')

/-- Where in a control sequence a text is. -/
inductive Place
  /-- Outside of sequences. -/
  | plain
  /-- After the escape character. -/
  | escape
  /-- In an escape sequence of more characters. -/
  | longEscape
  /-- In a control sequence, which moves the cursor or sets colours. -/
  | control
  /-- At the head of a device string. -/
  | device
  /-- In the numbers at the head of a device string. -/
  | deviceNumbers
  /-- After the numbers at the head of a device string. -/
  | deviceMarks
  /-- In a string that a closing character ends. -/
  | body
  /-- In a command to the operating system, such as one that names the window. -/
  | command
  deriving DecidableEq, Repr

namespace Place

/-- The place after a character between the blank and the tilde. -/
def afterPrinting (p : Place) (c : Char) : Place :=
  match p with
  | .plain => .plain
  | .escape =>
    if c < '0' then .longEscape
    else if c = '[' then .control
    else if c = ']' then .command
    else if c = 'P' then .device
    else if c = 'X' ∨ c = '^' ∨ c = '_' then .body
    else .plain
  | .longEscape => if c < '0' then .longEscape else .plain
  | .control => if c < '@' then .control else .plain
  | .device => if c < '0' then .deviceMarks else if c < '@' then .deviceNumbers else .body
  | .deviceNumbers => if c < '0' then .deviceMarks else if c < '<' then .deviceNumbers else .body
  | .deviceMarks => if c < '0' then .deviceMarks else .body
  | .body => .body
  | .command => .command

/-- The place after a character that is not one of ASCII: the byte `9c` closes a string. -/
def afterNonAscii (p : Place) (c : Char) : Place :=
  match p with
  | .body => if (String.utf8EncodeChar c).contains 0x9c then .plain else .body
  | p => p

/-- The place after a control character. Some leave every sequence, and the escape character begins one. -/
def afterControl (p : Place) (c : Char) : Place :=
  if c = '\x18' ∨ c = '\x1a' then .plain
  else if c = '\x1b' then .escape
  else if p = .command ∧ c = '\x07' then .plain
  else p

/-- The place after a character. -/
def next (p : Place) (c : Char) : Place :=
  if c < ' ' ∨ c = '\x7f' then p.afterControl c
  else if c < '\x7f' then p.afterPrinting c
  else p.afterNonAscii c

/-- Whether a character is shown here. Blank space in an unfinished sequence is. -/
def shows (p : Place) (c : Char) : Bool :=
  match p with
  | .plain => isText c
  | .escape | .longEscape | .control => isBlankControl c
  | _ => false

end Place

/-- What is shown of a text that begins at the given place. Once something is shown, so is the text after it, up to
    the next control; a sequence that it interrupts goes on then, if the text was ASCII. -/
def visibleFrom (p : Place) (showing : Bool) : List Char → List Char
  | [] => []
  | c :: cs =>
    if showing && isText c then c :: visibleFrom (if c < '\x80' then p else .plain) true cs
    else if p.shows c then c :: visibleFrom (p.next c) true cs
    else visibleFrom (p.next c) false cs

/-- What is shown of a text. -/
def visible (s : String) : String := String.ofList (visibleFrom .plain false s.toList)

/-! ## What is kept -/

theorem visibleFrom_of_isText {cs : List Char} (h : ∀ c ∈ cs, isText c = true) (p : Place) :
    visibleFrom p true cs = cs := by
  induction cs generalizing p with
  | nil => rfl
  | cons c cs ih =>
    have hc := h c (List.mem_cons_self ..)
    simp [visibleFrom, hc, ih fun d hd => h d (List.mem_cons_of_mem _ hd)]

/-- Text without controls is shown as it is. -/
theorem visible_of_isText {s : String} (h : ∀ c ∈ s.toList, isText c = true) : visible s = s := by
  unfold visible
  cases hs : s.toList with
  | nil => simp [visibleFrom, ← hs]
  | cons c cs =>
    rw [hs] at h
    have hc := h c (List.mem_cons_self ..)
    have := visibleFrom_of_isText (fun d hd => h d (List.mem_cons_of_mem _ hd)) (Place.plain.next c)
    simp [visibleFrom, Place.shows, hc, this, ← hs]

end StructPadding.Terminal
