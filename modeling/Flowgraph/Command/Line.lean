import Flowgraph.Assoc

/-!
# The command line

What the program can be told to do, and the words that tell it so. A command is named by words; the
options after them are written `--name value`, `--name=value`, `-n value`, `-nvalue` or `-n=value`.
A value in a word of its own must not look like an option. After `--` no word is an option. Words
are read from left to right, so that a request for help counts if nothing before it is wrong.
-/

set_option autoImplicit false

namespace Flowgraph

/-- Where the variables of a run come from. -/
inductive Command.Input where
  | absent
  /-- An object in JSON. -/
  | inline (text : String)
  /-- A file with an object in YAML or JSON. -/
  | file (path : String)
  deriving DecidableEq

/-- What the program is told to do. -/
inductive Command where
  | listActivities
  | showSchema (activity : String)
  | validate (file : String)
  | run (file : String) (input : Command.Input) (events : Bool)
  /-- Turns a canvas into a workflow. -/
  | exportCanvas (file : String) (output : Option String)
  /-- Turns a workflow into a canvas. -/
  | drawCanvas (file : String) (output : Option String)
  | showConfigPath
  | initConfig (force : Bool)
  deriving DecidableEq

namespace Command

/-- What a command line asks for. -/
inductive Request where
  | command (c : Command)
  | help
  | version
  /-- It cannot be understood. -/
  | misuse
  deriving DecidableEq

/-- What an option takes. -/
inductive Takes where
  | nothing
  | text
  /-- A path, which must not be empty. -/
  | path
  deriving DecidableEq

/-- An option of a command. -/
structure Opt where
  name : String
  short : Option Char := none
  takes : Takes

/-- The options given and the other words, in order. -/
structure Words where
  options : List (String × String) := []
  others : List String := []

/-- The result of reading words. -/
inductive Reading where
  | words (w : Words)
  | help
  | misuse

/-- Whether a word looks like an option. -/
def looksLikeOption (word : String) : Bool := word.startsWith "-" && word ≠ "-"

/-- Notes an option. Every option may be given once. -/
def Words.add? (w : Words) (option : Opt) (value : String) : Option Words :=
  if Assoc.contains option.name w.options ∨ (option.takes = .path ∧ value.isEmpty) then none
  else some { w with options := w.options ++ [(option.name, value)] }

/-- A word that begins like an option, taken apart. -/
inductive Mark where
  | help
  /-- An option, and the value in the same word if there is one. -/
  | option (o : Opt) (value : Option String)
  | unknown

/-- Takes a word with two hyphens apart. -/
def longMark (options : List Opt) (word : List Char) : Mark :=
  let name := String.ofList (word.takeWhile (· ≠ '='))
  let value := match word.dropWhile (· ≠ '=') with
    | [] => none
    | _ :: value => some (String.ofList value)
  match options.find? (·.name = name) with
  | some o => .option o value
  | none => if name = "help" ∧ value = none then .help else .unknown

/-- Takes the first letter of a word with one hyphen apart. -/
def shortMark (options : List Opt) (letter : Char) (rest : List Char) : Mark :=
  match options.find? (·.short = some letter) with
  | some o =>
    let value := match rest with
      | [] => none
      | '=' :: value => some (String.ofList value)
      | value => some (String.ofList value)
    .option o value
  | none => if letter = 'h' then .help else .unknown

/-- Reads the words of a command, of which at most `others` may be no options. -/
def read (options : List Opt) (others : Nat) : Words → List String → Reading
  | w, [] => .words w
  | w, word :: rest =>
    if word = "--" then
      if w.others.length + rest.length ≤ others then .words { w with others := w.others ++ rest }
      else .misuse
    else if !looksLikeOption word then
      if w.others.length < others then
        read options others { w with others := w.others ++ [word] } rest
      else .misuse
    else
      let mark := match word.toList with
        | '-' :: '-' :: text => longMark options text
        | '-' :: letter :: text => shortMark options letter text
        | _ => .unknown
      match mark with
      | .help => .help
      | .unknown => .misuse
      | .option o value =>
        match o.takes, value, rest with
        | .nothing, none, rest =>
          match w.add? o "" with
          | some w => read options others w rest
          | none => .misuse
        | .nothing, some _, _ => .misuse
        | _, some value, rest =>
          match w.add? o value with
          | some w => read options others w rest
          | none => .misuse
        | _, none, value :: rest =>
          if looksLikeOption value then .misuse
          else match w.add? o value with
            | some w => read options others w rest
            | none => .misuse
        | _, none, [] => .misuse

/-! ### The commands -/

/-- The file that a command works on. -/
def fileOption : Opt := ⟨"file", some 'f', .path⟩

/-- The file that a command writes. -/
def outputOption : Opt := ⟨"output", some 'o', .path⟩

/-- What a command makes of its words. -/
structure Form where
  options : List Opt
  /-- How many words besides its options a command takes at most. -/
  others : Nat := 0
  command? : Words → Option Command

/-- Where the variables of a run come from, if that is clear. -/
def input? (w : Words) : Option Input :=
  match Assoc.get? "input" w.options, Assoc.get? "input-file" w.options with
  | none, none => some .absent
  | some text, none => some (.inline text)
  | none, some path => some (.file path)
  | some _, some _ => none

/-- The words that name commands, and the form of what follows them. -/
def forms : List ((String × String) × Form) :=
  [ (("activities", "list"), ⟨[], 0, fun _ => some .listActivities⟩),
    (("activities", "schema"), ⟨[], 1, fun w => w.others.head?.map .showSchema⟩),
    (("workflow", "validate"), ⟨[fileOption], 0, fun w =>
      (Assoc.get? "file" w.options).map .validate⟩),
    (("workflow", "run"), ⟨[fileOption, ⟨"input", none, .text⟩, ⟨"input-file", none, .path⟩,
        ⟨"events", none, .nothing⟩], 0, fun w => do
      let file ← Assoc.get? "file" w.options
      return .run file (← input? w) (Assoc.contains "events" w.options)⟩),
    (("workflow", "export"), ⟨[fileOption, outputOption], 0, fun w =>
      (Assoc.get? "file" w.options).map fun file =>
        .exportCanvas file (Assoc.get? "output" w.options)⟩),
    (("workflow", "canvas"), ⟨[fileOption, outputOption], 0, fun w =>
      (Assoc.get? "file" w.options).map fun file =>
        .drawCanvas file (Assoc.get? "output" w.options)⟩),
    (("config", "path"), ⟨[], 0, fun _ => some .showConfigPath⟩),
    (("config", "init"), ⟨[⟨"force", none, .nothing⟩], 0, fun w =>
      some (.initConfig (Assoc.contains "force" w.options))⟩) ]

/-- What the words after the name of a command ask for. -/
def Form.request (f : Form) (words : List String) : Request :=
  match read f.options f.others {} words with
  | .help => .help
  | .misuse => .misuse
  | .words w =>
    match f.command? w with
    | some c => .command c
    | none => .misuse

/-- Whether a word asks for help. -/
def isHelp (word : String) : Bool := word.startsWith "-h" || word = "--help"

/-- Whether a word asks for the version. -/
def isVersion (word : String) : Bool := word.startsWith "-V" || word = "--version"

/-- Whether words after `help` name something that there is help for. -/
def isTopic : List String → Bool
  | [] => true
  | [group] => forms.any fun f => f.1.1 = group
  | [group, name] => forms.any fun f => f.1 = (group, name)
  | _ => false

/-- What a command line asks for. -/
def request : List String → Request
  | [] => .misuse
  | "help" :: topic => if isTopic topic ∨ topic = ["help"] then .help else .misuse
  | group :: words =>
    if isHelp group then .help
    else if isVersion group then .version
    else if ¬isTopic [group] then .misuse
    else match words with
      | [] => .misuse
      | "help" :: topic =>
        if isTopic (group :: topic) ∨ topic = ["help"] then .help else .misuse
      | name :: rest =>
        if isHelp name then .help
        else match forms.find? fun f => f.1 = (group, name) with
          | some (_, form) => form.request rest
          | none => .misuse

end Command

end Flowgraph
