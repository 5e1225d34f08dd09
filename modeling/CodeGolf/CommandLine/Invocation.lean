import CodeGolf.CommandLine.Help

/-!
# Invocations

The arguments of the program name one command with its options, or ask for help. `Request.parse?`
refuses arguments that no command takes; what the options hold is looked at when the command
runs.
-/

namespace CodeGolf.CommandLine

/-- Where the code to check comes from. -/
inductive CodeSource where
  | digits (text : String)
  | file (path : String)

/-- How the allow-list is given. -/
inductive AllowList where
  | digits (text : String)
  /-- All opcodes but these. -/
  | denying (opcodes : List String)

/-- What the program is asked to do. -/
inductive Command where
  | check (code : Option CodeSource) (allowed : AllowList)
  | commitKey (player solution salt : String)
  | allowList (denied : List String)
  | config
  /-- Show a snapshot, as a summary or in full. -/
  | inspectSnapshot (path : String) (full : Bool)

/-- A command with what applies to all commands. -/
structure Invocation where
  config : Option String
  command : Command

/-- What the arguments ask for. -/
inductive Request where
  | help (page : Page)
  | run (invocation : Invocation)

namespace Command

/-! ## Forms -/

/-- The option with opcodes to forbid: it may be repeated, and each value is a list. -/
def denyForm : OptionForm :=
  { name := "deny", repeats := true, meaning := "Opcodes to forbid, e.g. 55,f0" }

/-- The command that checks code. -/
def checkForm : CommandForm where
  name := "check"
  purpose := "Check bytecode against an allow-list"
  options :=
    [{ name := "code", meaning := "Bytecode as hex" },
      { name := "file"
        letter := some 'f'
        allowsEmpty := false
        meaning := "File holding raw bytecode" },
      { name := "allowed", meaning := "Allow-list bitmap as hex (defaults to all opcodes)" },
      denyForm]

/-- The command that computes the key of a commitment. -/
def commitKeyForm : CommandForm where
  name := "commit-key"
  purpose := "Compute the commitment key for a solution"
  options :=
    [{ name := "player", required := true, meaning := "Committer address (hex)" },
      { name := "solution", required := true, meaning := "Solution bytecode (hex)" },
      { name := "salt", required := true, meaning := "32-byte salt (hex)" }]

/-- The command that builds an allow-list. -/
def allowListForm : CommandForm where
  name := "allow-list"
  purpose := "Build an allow-list bitmap"
  options := [denyForm]

/-- The command that shows the settings. -/
def configForm : CommandForm where
  name := "config"
  purpose := "Print the effective leaderboard config"
  options := []

/-- The command that shows a snapshot. -/
def inspectSnapshotForm : CommandForm where
  name := "inspect-snapshot"
  purpose := "Summarize a snapshot file"
  options :=
    [{ name := "file", letter := some 'f', allowsEmpty := false, required := true },
      { name := "json", hasValue := false, meaning := "Dump the full snapshot as JSON" }]

/-! ## Commands from options -/

/-- The opcodes to forbid. -/
def denied (given : List Given) : List String :=
  (valuesOf given denyForm.name).flatMap fun value =>
    (value.toList.splitOn ',').map String.ofList

/-- The command that checks code: it takes its code from one place, and its allow-list too. -/
def check? (given : List Given) : Option Command := do
  let code ←
    match value? given "code", value? given "file" with
    | some _, some _ => none
    | some text, none => some (some (.digits text))
    | none, some path => some (some (.file path))
    | none, none => some none
  match value? given "allowed", valuesOf given denyForm.name with
  | some _, _ :: _ => none
  | some text, [] => some (.check code (.digits text))
  | none, _ => some (.check code (.denying (denied given)))

/-- The command that computes the key of a commitment. -/
def commitKey? (given : List Given) : Option Command := do
  let player ← value? given "player"
  let solution ← value? given "solution"
  let salt ← value? given "salt"
  some (.commitKey player solution salt)

/-- The command that builds an allow-list. -/
def allowList? (given : List Given) : Option Command := some (.allowList (denied given))

/-- The command that shows the settings. -/
def config? (_ : List Given) : Option Command := some .config

/-- The command that shows a snapshot. -/
def inspectSnapshot? (given : List Given) : Option Command := do
  let path ← value? given "file"
  some (.inspectSnapshot path (value? given "json").isSome)

/-- All commands, each with how it is read from its options. -/
def all : List (CommandForm × (List Given → Option Command)) :=
  [(checkForm, check?), (commitKeyForm, commitKey?), (allowListForm, allowList?),
    (configForm, config?), (inspectSnapshotForm, inspectSnapshot?)]

end Command

namespace Request

/-! ## Help -/

/-- The name of the program. -/
def program : String := "golf-utils"

/-- The variable that names the file with the settings unless an option does. -/
def variableName : String := "GOLF_CONFIG"

/-- The options before the command, where the variable has the value `environment`. -/
def globalForms (environment : Option String) : List OptionForm :=
  [{ name := "config"
     allowsEmpty := false
     meaning :=
      "Leaderboard config file (JSON) [env: " ++ variableName ++ "=" ++ environment.getD "" ++
        "]" },
    { name := "verbose", letter := some 'v', hasValue := false, meaning := "Verbose logging" }]

/-- The name of the command that shows help. -/
def helpName : String := "help"

/-- What the command that shows help is for. -/
def helpPurpose : String := "Print this message or the help of the given subcommand(s)"

/-- The page of the program. -/
def programPage (environment : Option String) : Page where
  purpose := "Golf leaderboard utilities"
  usage := program ++ optionUsage (globalForms environment) ++ " <COMMAND>"
  parts :=
    [{ title := "Commands"
       rows :=
        (Command.all.map fun (form, _) => ⟨[⟨form.name, true⟩], form.purpose⟩) ++
          [⟨[⟨helpName, true⟩], helpPurpose⟩] },
      optionPart (globalForms environment)]

/-- The page of the command that shows help. -/
def helpPage : Page where
  purpose := helpPurpose
  usage := program ++ " " ++ helpName ++ " [COMMAND]..."
  parts :=
    [{ title := "Arguments"
       rows := [⟨[⟨"[COMMAND]...", false⟩], "Print help for the subcommand(s)"⟩] }]

/-- The page that the words after the command `help` ask for. -/
def helpOn? (environment : Option String) : List String → Option Page
  | [] => some (programPage environment)
  | [name] =>
    if name == helpName then some helpPage
    else (Command.all.find? fun (form, _) => form.name == name).map fun (form, _) =>
      form.page program
  | _ => none

/-! ## Requests from arguments -/

/-- What a command and its arguments ask for, before the options that stand in front of the
command are settled. -/
def ofCommand (name : String) (arguments : List String) : Except Stop (Command ⊕ Page) :=
  match Command.all.find? fun (form, _) => form.name == name with
  | none => .error .refused
  | some (form, read?) =>
    match onlyOptions form.options arguments with
    | .error .help => .ok (.inr (form.page program))
    | .error .refused => .error .refused
    | .ok given =>
      match read? given with
      | none => .error .refused
      | some command => .ok (.inl command)

/-- The request that arguments make, if the program takes them. The file with the settings is
that of the option, or else that of the variable, which then may not be empty. -/
def parse? (environment : Option String) (arguments : List String) : Option Request :=
  let forms := globalForms environment
  match opening forms arguments with
  | .error .help => some (.help (programPage environment))
  | .error .refused => none
  | .ok o =>
    match o.words with
    | [] => none
    | name :: rest =>
      if name == helpName then (helpOn? environment rest).map .help
      else
        match ofCommand name rest with
        | .error _ => none
        | .ok (.inr page) => some (.help page)
        | .ok (.inl command) =>
          match o.settle forms with
          | .error _ => none
          | .ok given =>
            match value? given "config", environment with
            | none, some "" => none
            | option, environment => some (.run ⟨option.or environment, command⟩)

end Request

end CodeGolf.CommandLine
