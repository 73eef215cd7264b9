/-!
# Values shown on one line or on several

`Shown` is the structure of a value's text: words, labelled parts, and groups between an opening
and a closing bracket. `Shown.flat` writes it on one line, `Shown.indented` one part to a line,
four spaces further in for each group, with a comma after every part.
-/

namespace Interlock

/-- The structure of a value's text. -/
inductive Shown where
  /-- A word, as it is written on one line and on several. -/
  | word (flat indented : String)
  /-- A part with its label. -/
  | labelled (label : String) (value : Shown)
  /-- The mark for parts that are not shown. -/
  | more
  /-- Parts between brackets; `spaced` puts spaces inside the brackets on one line. -/
  | group (opening closing : String) (spaced : Bool) (parts : List Shown)

namespace Shown

/-- A word written the same way everywhere. -/
def plain (s : String) : Shown := .word s s

/-- A name with its parts in round brackets. -/
def tuple (name : String) (parts : List Shown) : Shown := .group (name ++ "(") ")" false parts

/-- A name with labelled parts in braces. -/
def record (name : String) (parts : List Shown) : Shown :=
  .group (name ++ " \x7b") "\x7d" true parts

/-- The members of a set in braces. -/
def set (parts : List Shown) : Shown := .group "\x7b" "\x7d" false parts

/-- The members of a list in square brackets. -/
def list (parts : List Shown) : Shown := .group "[" "]" false parts

mutual

/-- The text on one line. -/
def flat : Shown → String
  | .word s _ => s
  | .labelled label v => label ++ ": " ++ v.flat
  | .more => ".."
  | .group opening closing spaced parts =>
    let body := ", ".intercalate (flats parts)
    let space := if spaced then " " else ""
    opening ++ space ++ body ++ space ++ closing

/-- The texts of parts, each on one line. -/
def flats : List Shown → List String
  | [] => []
  | s :: rest => s.flat :: flats rest

end

/-- Puts a comma after the last line. -/
def withComma : List String → List String
  | [] => []
  | [line] => [line ++ ","]
  | line :: rest => line :: withComma rest

mutual

/-- The lines of the text written on several lines. -/
def lines : Shown → List String
  | .word _ s => [s]
  | .labelled label v =>
    match v.lines with
    | [] => [label ++ ": "]
    | line :: rest => (label ++ ": " ++ line) :: rest
  | .more => [".."]
  | .group opening closing _ parts =>
    match parts with
    | [] => [opening ++ closing]
    | part :: rest => opening :: (partLines (part :: rest)).map ("    " ++ ·) ++ [closing]

/-- The lines of parts, with a comma after each part that is shown. -/
def partLines : List Shown → List String
  | [] => []
  | .more :: rest => ".." :: partLines rest
  | s :: rest => withComma s.lines ++ partLines rest

end

/-- The text on several lines. -/
def indented (s : Shown) : String := "\n".intercalate s.lines

end Shown
end Interlock
