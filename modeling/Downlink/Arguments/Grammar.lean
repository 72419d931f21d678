import Downlink.Fault
import Downlink.Text.Real

/-!
Grammars of command lines: positional arguments, options that take a value or none, and what can be
wrong with a line. Every grammar has an option that asks for help.
-/

namespace Downlink

namespace Arguments

/-- What the words given for an argument stand for. -/
inductive Domain where
  | text
  | whole
  | real
  | textOf (choices : List String)
  | wholeOf (choices : List Int)
  deriving DecidableEq, Repr

inductive Content where
  | text (s : String)
  | whole (n : Int)
  | real (x : Float)

structure Positional where
  name : String
  domain : Domain
  /-- Takes as many words as there are. -/
  many : Bool := false
  deriving DecidableEq, Repr

inductive Role where
  | help
  | flag
  | value (domain : Domain)
  deriving DecidableEq, Repr

structure Choice where
  long : String
  short : Option String
  role : Role
  required : Bool := false
  deriving DecidableEq, Repr

namespace Choice

def valued (long : String) (domain : Domain) : Choice := ⟨long, none, .value domain, false⟩

def help : Choice := ⟨"--help", some "-h", .help, false⟩

def spellings (c : Choice) : List String := c.short.toList ++ [c.long]

def name (c : Choice) : String := "/".intercalate c.spellings

end Choice

structure Grammar where
  program : String
  positionals : List Positional
  own : List Choice
  deriving DecidableEq, Repr

namespace Grammar

def choices (g : Grammar) : List Choice := Choice.help :: g.own

def spellings (g : Grammar) : List (String × Choice) :=
  g.choices.flatMap fun c => c.spellings.map fun s => (s, c)

def find? (g : Grammar) (spelling : String) : Option Choice :=
  (g.spellings.find? fun p => p.1 = spelling).map Prod.snd

end Grammar

inductive Misuse where
  | ambiguous (option : String) (candidates : List String)
  | valueExpected (argument : String)
  | valueIgnored (argument value : String)
  | notWhole (argument value : String)
  | notReal (argument value : String)
  | notAChoice (argument shown : String) (choices : List String)
  | missing (arguments : List String)
  | unrecognized (words : List String)
  | refused (cause : SetupFault)

def ofArgument (argument complaint : String) : String := s!"argument {argument}: {complaint}"

open Text (quoted) in
def Misuse.message : Misuse → String
  | ambiguous option candidates =>
    s!"ambiguous option: {option} could match " ++ ", ".intercalate candidates
  | valueExpected argument => ofArgument argument "expected one argument"
  | valueIgnored argument value =>
    ofArgument argument ("ignored explicit argument " ++ quoted value)
  | notWhole argument value => ofArgument argument ("invalid int value: " ++ quoted value)
  | notReal argument value => ofArgument argument ("invalid float value: " ++ quoted value)
  | notAChoice argument shown choices =>
    ofArgument argument
      (s!"invalid choice: {shown} (choose from " ++ ", ".intercalate choices ++ ")")
  | missing names => "the following arguments are required: " ++ ", ".intercalate names
  | unrecognized words => "unrecognized arguments: " ++ " ".intercalate words
  | refused cause => cause.message

inductive Refusal where
  | help
  | misuse (cause : Misuse)

def readWhole (argument value : String) : Except Misuse Int :=
  match Text.integer? value.toList with
  | some n => .ok n
  | none => .error (.notWhole argument value)

def Domain.read (argument value : String) : Domain → Except Misuse Content
  | text => .ok (.text value)
  | whole => (readWhole argument value).map Content.whole
  | real =>
    match Text.real? value.toList with
    | some x => .ok (.real x)
    | none => .error (.notReal argument value)
  | textOf choices =>
    if value ∈ choices then .ok (.text value)
    else .error (.notAChoice argument (Text.quoted value) (choices.map Text.quoted))
  | wholeOf choices =>
    match readWhole argument value with
    | .error e => .error e
    | .ok n =>
      if n ∈ choices then .ok (.whole n)
      else .error (.notAChoice argument (Text.decimal n) (choices.map Text.decimal))

end Arguments

end Downlink
