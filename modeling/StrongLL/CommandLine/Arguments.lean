import StrongLL.Recognizer.Basic
import StrongLL.Render.Format

/-!
# Command line arguments

Arguments are read from left to right. A word that begins with a dash is an option, unless it is the
dash alone or stands after `--`; any other word names an output. An option takes its value from the
same word or from the next one, which then must not begin with a dash. Flags of one letter may share
a word. No option is given twice, and at least one output is asked for. Asking for the version is
answered where it stands, whatever comes after it.
-/

namespace StrongLL.CommandLine

set_option autoImplicit false

/-- What can be printed. -/
inductive Output where
  | productions
  | epsilonFree
  | lookahead
  | table
  | derivation
deriving DecidableEq

def Output.name : Output → String
  | productions => "prod"
  | epsilonFree => "eps"
  | lookahead => "lookahead"
  | table => "table"
  | derivation => "parse"

def Output.ofName? (name : Text) : Option Output :=
  [productions, epsilonFree, lookahead, table, derivation].find? (·.name.toList == name)

/-- Options that take a value. -/
inductive ValueOption where
  | grammar
  | k
  | input
  | strategy
  | steps
deriving DecidableEq

def ValueOption.ofLong? (name : Text) : Option ValueOption :=
  [("grammar", grammar), ("input", input), ("strategy", strategy), ("steps", steps)].findSome?
    fun (long, option) => if long.toList = name then some option else none

def ValueOption.ofShort? : Char → Option ValueOption
  | 'g' => some grammar
  | 'k' => some k
  | 'i' => some input
  | 's' => some strategy
  | _ => none

/-- What the arguments read so far have set. -/
structure Settings where
  outputs : List Output := []
  grammar : Option Text := none
  k : Option Nat := none
  input : Option Text := none
  strategy : Option Strategy := none
  steps : Option Nat := none
  latex : Bool := false
  json : Bool := false
deriving DecidableEq

inductive Request where
  | refused
  | version
  | run (settings : Settings)
deriving DecidableEq

/-- Reads a number below `2 ^ 64`: digits, with a plus sign before them or not. -/
def readNumber? (text : Text) : Option Nat :=
  let digits := if text.head? = some '+' then text.tail else text
  if digits.isEmpty || !digits.all Char.isDigit then none
  else
    let value := digits.foldl (fun value c => 10 * value + (c.toNat - '0'.toNat)) 0
    if value < UInt64.size then some value else none

namespace Settings

/-- Sets an option that is not set yet, if the value is one for it. -/
def set? (settings : Settings) (option : ValueOption) (value : Text) : Option Settings :=
  match option with
  | .grammar =>
    if settings.grammar.isSome || value.isEmpty then none
    else some { settings with grammar := some value }
  | .k =>
    if settings.k.isSome then none
    else (readNumber? value).map fun k => { settings with k := some k }
  | .input =>
    if settings.input.isSome then none else some { settings with input := some value }
  | .strategy =>
    if settings.strategy.isSome then none
    else
      (Strategy.ofName? value.string).map fun strategy =>
        { settings with strategy := some strategy }
  | .steps =>
    if settings.steps.isSome then none
    else (readNumber? value).map fun steps => { settings with steps := some steps }

/-- Asks for one more output, if it is one. -/
def addOutput? (settings : Settings) (name : Text) : Option Settings :=
  (Output.ofName? name).map fun output => { settings with outputs := settings.outputs ++ [output] }

/-- The request when every argument is read. -/
def request (settings : Settings) : Request :=
  if settings.outputs.isEmpty || (settings.latex && settings.json) then .refused
  else .run settings

def format (settings : Settings) : Format :=
  if settings.latex then .latex else if settings.json then .json else .plain

def config (settings : Settings) : RecognizerConfig := ⟨settings.k.getD 1, settings.steps⟩

end Settings

/-- The word begins with a dash and is not the dash alone. -/
def isOption : Text → Bool
  | '-' :: _ :: _ => true
  | _ => false

/-- What a word of the command line does to the settings. -/
inductive Effect where
  | refuse
  | version
  | proceed (settings : Settings)
  | awaitValue (settings : Settings) (option : ValueOption)
deriving DecidableEq

/-- The effect of settings that may have been refused. -/
def Effect.ofSettings? : Option Settings → Effect
  | some settings => .proceed settings
  | none => .refuse

/-- The effect of a word after two dashes. -/
def longOption (settings : Settings) (body : Text) : Effect :=
  match Text.cutAt? ['='] body with
  | some (name, value) =>
    match ValueOption.ofLong? name with
    | some option => .ofSettings? (settings.set? option value)
    | none => .refuse
  | none =>
    if body = "version".toList then .version
    else
      match ValueOption.ofLong? body with
      | some option => .awaitValue settings option
      | none => .refuse

/-- The effect of the letters after one dash. A letter that takes a value takes the rest of the
word, less an equals sign before it. -/
def shortOptions (settings : Settings) : Text → Effect
  | [] => .proceed settings
  | 'V' :: _ => .version
  | 'l' :: rest =>
    if settings.latex then .refuse else shortOptions { settings with latex := true } rest
  | 'j' :: rest =>
    if settings.json then .refuse else shortOptions { settings with json := true } rest
  | c :: rest =>
    match ValueOption.ofShort? c, rest with
    | none, _ => .refuse
    | some option, [] => .awaitValue settings option
    | some option, '=' :: value => .ofSettings? (settings.set? option value)
    | some option, value => .ofSettings? (settings.set? option value)

/-- The effect of a word, which is not `--`. -/
def wordEffect (settings : Settings) (word : Text) : Effect :=
  match word with
  | '-' :: '-' :: body => longOption settings body
  | '-' :: c :: rest => shortOptions settings (c :: rest)
  | _ => .ofSettings? (settings.addOutput? word)

/-- Reads words that all name outputs. -/
def readOutputs (settings : Settings) : List Text → Request
  | [] => settings.request
  | word :: rest =>
    match settings.addOutput? word with
    | some settings => readOutputs settings rest
    | none => .refused

/-- Reads the remaining words of the command line. -/
def readWords (settings : Settings) : List Text → Request
  | [] => settings.request
  | word :: rest =>
    if word = ['-', '-'] then readOutputs settings rest
    else
      match wordEffect settings word, rest with
      | .refuse, _ => .refused
      | .version, _ => .version
      | .proceed settings, rest => readWords settings rest
      | .awaitValue _ _, [] => .refused
      | .awaitValue settings option, value :: rest =>
        if isOption value then .refused
        else
          match settings.set? option value with
          | some settings => readWords settings rest
          | none => .refused

def read (words : List Text) : Request := readWords {} words

end StrongLL.CommandLine
