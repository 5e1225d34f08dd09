import CodeGolf.CommandLine.Options
import CodeGolf.Text.Padded
import CodeGolf.Text.Plain

/-!
# Help

A page of help says what a command is for, how it is used, and what its parts mean. The parts
stand in sections; within a section the meanings stand in one column, two spaces after the
longest label. `Page.render` sets off titles and names for a terminal, and `Page.plain` is the
page without that.
-/

namespace CodeGolf.CommandLine

/-- A command as its help shows it. -/
structure CommandForm where
  name : String
  purpose : String
  options : List OptionForm

/-! ## Text that is set off -/

/-- A piece of text, perhaps in bold. -/
structure Span where
  text : String
  bold : Bool := false

/-- A piece of text for a terminal. -/
def Span.render (s : Span) : String :=
  if s.bold then "\x1b[1m" ++ s.text ++ "\x1b[0m" else s.text

/-- A title for a terminal: in bold and underlined. -/
def renderTitle (title : String) : String := "\x1b[1m\x1b[4m" ++ title ++ ":\x1b[0m"

/-! ## Pages -/

/-- A label and what it means. -/
structure Row where
  label : List Span
  meaning : String

/-- A part of a page. -/
structure Part where
  title : String
  rows : List Row

/-- A page of help. -/
structure Page where
  purpose : String
  usage : String
  parts : List Part

/-- The length of a label. -/
def Row.labelWidth (row : Row) : Nat :=
  row.label.foldl (fun width span => width + span.text.length) 0

/-- The length of the longest label. -/
def Part.labelWidth (p : Part) : Nat := p.rows.foldl (fun width row => max width row.labelWidth) 0

/-- The line of a row in a part whose longest label has the given width. A meaning of several lines
stays in its column. -/
def Row.render (width : Nat) (row : Row) : String :=
  let column := List.replicate (width + 4) ' '
  let meaning := row.meaning.toList.flatMap fun c => if c = '\n' then c :: column else [c]
  "  " ++ String.join (row.label.map Span.render) ++ Text.padded (width - row.labelWidth + 2) "" ++
    String.ofList meaning

/-- The lines of a part, after an empty one. -/
def Part.render (p : Part) : List String :=
  "" :: renderTitle p.title :: p.rows.map (Row.render p.labelWidth)

/-- A page for a terminal. -/
def Page.render (p : Page) : String :=
  "\n".intercalate
    ([p.purpose, "", renderTitle "Usage" ++ " " ++ p.usage] ++ p.parts.flatMap Part.render)

/-- A page as plain text. -/
def Page.plain (p : Page) : String := String.ofList (Text.plain p.render.toList)

/-! ## Options on a page -/

/-- The name of the value of an option, as it stands behind the option. -/
def OptionForm.valueName (form : OptionForm) : String :=
  if form.hasValue then " <" ++ form.name.toUpper ++ ">" else ""

/-- The row of an option; the names stand in one column whether there is a letter or not. -/
def OptionForm.row (form : OptionForm) : Row where
  label :=
    (match form.letter with
    | none => [⟨"    ", false⟩]
    | some c => [⟨String.ofList ['-', c], true⟩, ⟨", ", false⟩]) ++
      [⟨"--" ++ form.name, true⟩, ⟨form.valueName, false⟩]
  meaning := form.meaning

/-- The part with the options of a command. -/
def optionPart (forms : List OptionForm) : Part where
  title := "Options"
  rows := (forms ++ [helpForm]).map OptionForm.row

/-- What follows the name of a command in its usage: a mark for the options it can do without,
and the others. -/
def optionUsage (forms : List OptionForm) : String :=
  String.join <|
    (if forms.any (!·.required) then [" [OPTIONS]"] else []) ++
      (forms.filter (·.required)).map fun form => " --" ++ form.name ++ form.valueName

/-- The page of a command. -/
def CommandForm.page (program : String) (c : CommandForm) : Page where
  purpose := c.purpose
  usage := program ++ " " ++ c.name ++ optionUsage c.options
  parts := [optionPart c.options]

end CodeGolf.CommandLine
