/-!
# Options of a command

A command takes options with a long name, and perhaps a letter, before anything else. An option
with a value has it behind an equals sign, behind its letter, or in the next argument, which then
may not look like an option itself. A lone dash is a word; two dashes end the options.

Options are read from left to right, and the first fault or the first request for help decides.
An option whose value is the next argument is only looked at when reading goes on after it, so
that the words that follow it may decide before it does.
-/

namespace CodeGolf.CommandLine

/-- An option that a command takes. -/
structure OptionForm where
  name : String
  /-- The letter after one dash. -/
  letter : Option Char := none
  hasValue : Bool := true
  /-- Whether the option may be given more than once. -/
  repeats : Bool := false
  /-- Whether an empty value is a value. -/
  allowsEmpty : Bool := true
  required : Bool := false
  meaning : String := ""

/-- The option that asks for help, which every command takes. -/
def helpForm : OptionForm :=
  { name := "help", letter := some 'h', hasValue := false, meaning := "Print help" }

/-- An option as it was given; without a value, the value is empty. -/
structure Given where
  name : String
  value : String

/-! ## One argument -/

/-- What the options of an argument end with. -/
inductive Ending where
  | complete
  /-- An option whose value has to be the next argument. -/
  | pending (name : String)
  /-- An option that the command does not take, or not in this way. -/
  | unknown

/-- What an argument is. -/
inductive Argument where
  /-- No option. -/
  | word
  /-- The mark after which there are no options. -/
  | endOfOptions
  /-- Options, the last of which may lack something. -/
  | options (given : List Given) (ending : Ending)

/-- Reads letters after one dash: options without values, and at last perhaps one with a
value. -/
def ofLetters (forms : List OptionForm) : List Char → List Given × Ending
  | [] => ([], .complete)
  | c :: rest =>
    match forms.find? fun form => form.letter == some c with
    | none => ([], .unknown)
    | some form =>
      if form.hasValue then
        match rest with
        | [] => ([], .pending form.name)
        | '=' :: value => ([⟨form.name, String.ofList value⟩], .complete)
        | value => ([⟨form.name, String.ofList value⟩], .complete)
      else
        let (given, ending) := ofLetters forms rest
        (⟨form.name, ""⟩ :: given, ending)

/-- Reads what follows two dashes: a name, and perhaps an equals sign and a value. -/
def ofLongName (forms : List OptionForm) (text : List Char) : List Given × Ending :=
  let name := String.ofList (text.takeWhile (· != '='))
  match forms.find? (fun form => form.name == name), text.dropWhile (· != '=') with
  | none, _ => ([], .unknown)
  | some form, [] => if form.hasValue then ([], .pending name) else ([⟨name, ""⟩], .complete)
  | some form, _ :: value =>
    if form.hasValue then ([⟨name, String.ofList value⟩], .complete) else ([], .unknown)

/-- What an argument is to a command that takes the given options. -/
def classify (forms : List OptionForm) (argument : String) : Argument :=
  match argument.toList with
  | ['-', '-'] => .endOfOptions
  | '-' :: '-' :: text =>
    let (given, ending) := ofLongName forms text
    .options given ending
  | '-' :: c :: letters =>
    let (given, ending) := ofLetters forms (c :: letters)
    .options given ending
  | _ => .word

/-- Whether an argument can be the value of the option before it. -/
def isValue (argument : String) : Bool :=
  match argument.toList with
  | '-' :: _ :: _ => false
  | _ => true

/-! ## All arguments -/

/-- What ends the reading of arguments early. -/
inductive Stop where
  | refused
  | help

/-- The options with one more; it may be the request for help, and it may not be given again or
not with this value. -/
def accept (forms : List OptionForm) (given : List Given) (more : Given) :
    Except Stop (List Given) :=
  if more.name == helpForm.name then .error .help
  else
    match forms.find? fun form => form.name == more.name with
    | none => .error .refused
    | some form =>
      if !form.repeats && given.any (·.name == more.name) then .error .refused
      else if form.hasValue && !form.allowsEmpty && more.value.isEmpty then .error .refused
      else .ok (given ++ [more])

/-- The options with more of them, each looked at in turn. -/
def acceptAll (forms : List OptionForm) (given more : List Given) : Except Stop (List Given) :=
  more.foldlM (accept forms) given

/-- The options at the start of arguments. -/
structure Opening where
  /-- The options that were looked at, in order. -/
  given : List Given
  /-- The last option, if it was not looked at yet. -/
  waiting : Option Given
  /-- The arguments from the first word on. -/
  words : List String

/-- All options of an opening, once the last one is looked at. -/
def Opening.settle (forms : List OptionForm) (o : Opening) : Except Stop (List Given) :=
  acceptAll forms o.given o.waiting.toList

/-- The options that the arguments start with, after those already read. Nothing may follow the
end of options. -/
def openingFrom (forms : List OptionForm) (given : List Given) (waiting : Option Given) :
    List String → Except Stop Opening
  | [] => .ok ⟨given, waiting, []⟩
  | argument :: rest =>
    match classify forms argument with
    | .word => .ok ⟨given, waiting, argument :: rest⟩
    | .endOfOptions => if rest.isEmpty then .ok ⟨given, waiting, []⟩ else .error .refused
    | .options more ending =>
      match acceptAll forms given (waiting.toList ++ more) with
      | .error stop => .error stop
      | .ok given =>
        match ending with
        | .unknown => .error .refused
        | .complete => openingFrom forms given none rest
        | .pending name =>
          match rest with
          | [] => .error .refused
          | value :: rest =>
            if isValue value then openingFrom forms given (some ⟨name, value⟩) rest
            else .error .refused

/-- The options that the arguments start with. -/
def opening (forms : List OptionForm) (arguments : List String) : Except Stop Opening :=
  openingFrom (forms ++ [helpForm]) [] none arguments

/-- The options of arguments that hold nothing else. -/
def onlyOptions (forms : List OptionForm) (arguments : List String) :
    Except Stop (List Given) := do
  let o ← opening forms arguments
  if o.words.isEmpty then o.settle forms else .error .refused

/-- The values given for an option, in order. -/
def valuesOf (given : List Given) (name : String) : List String :=
  (given.filter fun g => g.name == name).map Given.value

/-- The value given for an option, if it was given. -/
def value? (given : List Given) (name : String) : Option String := (valuesOf given name).head?

end CodeGolf.CommandLine
