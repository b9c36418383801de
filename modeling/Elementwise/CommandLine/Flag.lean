import Elementwise.Text.Quoted
import Elementwise.Text.Radix

/-!
# Flags

A value follows an equals sign or is the next argument; a switch takes one only after an equals
sign. Letters can be written together: switches first, then at most one flag with a value, which
may follow its letter at once. A flag that is given twice has its last value.
-/
namespace Elementwise.CommandLine
open Text.Numeral Text.Quoted

/-- What the flags of a command line ask for. -/
structure Settings where
  help : Bool := false
  verbose : Bool := false
  noColor : Bool := false
  output : String := ""
  config : String := ""
  jobs : Option Int := none
  debug : Option Bool := none
  strict : Option Bool := none
  spirv : Option String := none
  cacheDir : Option String := none
  deriving DecidableEq, Repr

/-- What a value changes, by the kind of value that a flag takes. -/
inductive Setter where
  | switch (set : Bool → Settings → Settings)
  | number (set : Int → Settings → Settings)
  | text (set : String → Settings → Settings)

structure Flag where
  name : String
  letter : Option Char := none
  setter : Setter

inductive FlagError where
  /-- Nothing, a dash or an equals sign follows the dashes. -/
  | malformed (argument : String)
  | unknown (name : String)
  | unknownLetter (letter : Char) (group : String)
  | noValue (name : String)
  | noLetterValue (letter : Char) (group : String)
  | badValue (label value : String) (reading : Reading) (fault : Fault)
  deriving DecidableEq, Repr

/-- A letter of a message. Letters outside ASCII are not told apart. -/
def letterText (c : Char) : String := quoteChar (if c.toNat < 0x80 then c else Char.ofNat 0xc3)

def FlagError.message : FlagError → String
  | .malformed s => "bad flag syntax: " ++ s
  | .unknown name => "unknown flag: --" ++ name
  | .unknownLetter c group => "unknown shorthand flag: " ++ letterText c ++ " in -" ++ group
  | .noValue name => "flag needs an argument: --" ++ name
  | .noLetterValue c group => "flag needs an argument: " ++ letterText c ++ " in -" ++ group
  | .badValue label value reading fault =>
    "invalid argument " ++ quote value ++ " for " ++ quote label ++ " flag: " ++
      readingMessage reading (quote value) fault

namespace Flag

def isSwitch (f : Flag) : Bool :=
  match f.setter with
  | .switch _ => true
  | _ => false

/-- A flag as messages show it. -/
def label (f : Flag) : String :=
  match f.letter with
  | some c => "-" ++ c.toString ++ ", --" ++ f.name
  | none => "--" ++ f.name

/-- The value of a switch that is given without one. -/
def plainValue : String := "true"

/-- Gives a flag a value. -/
def give (f : Flag) (value : String) (s : Settings) : Except FlagError Settings :=
  match f.setter with
  | .text set => .ok (set value s)
  | .switch set =>
    match readTruth? value with
    | some b => .ok (set b s)
    | none => .error (.badValue f.label value .truth .syntaxFault)
  | .number set =>
    match Text.Radix.readSigned value.toList with
    | .ok n => .ok (set n s)
    | .error fault => .error (.badValue f.label value .signed fault)

end Flag

/-! ## Reading arguments -/

/-- What one argument does. -/
inductive Effect where
  /-- It is no flag. -/
  | operand
  /-- It ends the flags. -/
  | stop
  | settled (settings : Settings)
  /-- The value of a flag has to follow. -/
  | awaits (flag : Flag) (settings : Settings) (missing : FlagError)

def named? (flags : List Flag) (name : String) : Option Flag := flags.find? (·.name == name)

def lettered? (flags : List Flag) (c : Char) : Option Flag := flags.find? (·.letter == some c)

/-- What stands before the first equals sign, and what stands after it if there is one. -/
def splitValue (cs : List Char) : String × Option String :=
  let name := String.ofList (cs.takeWhile (· != '='))
  match cs.dropWhile (· != '=') with
  | [] => (name, none)
  | _ :: value => (name, some (String.ofList value))

/-- Reads what follows two dashes. -/
def readNamed (flags : List Flag) (s : Settings) (cs : List Char) : Except FlagError Effect :=
  if cs.head? == some '-' || cs.head? == some '=' then
    .error (.malformed (String.ofList ('-' :: '-' :: cs)))
  else
    let (name, value) := splitValue cs
    match named? flags name, value with
    | none, _ => .error (.unknown name)
    | some f, some v => (f.give v s).map .settled
    | some f, none =>
      if f.isSwitch then (f.give Flag.plainValue s).map .settled
      else .ok (.awaits f s (.noValue name))

/-- Groups that start so are meant for a test runner and do nothing. -/
def foreignGroup : List Char := "test.".toList

/-- Reads the letters that follow a dash. -/
def readLetters (flags : List Flag) (s : Settings) : List Char → Except FlagError Effect
  | [] => .ok (.settled s)
  | c :: rest =>
    if foreignGroup.isPrefixOf (c :: rest) then .ok (.settled s)
    else
      match lettered? flags c with
      | none => .error (.unknownLetter c (String.ofList (c :: rest)))
      | some f =>
        match rest with
        | '=' :: v :: vs => (f.give (String.ofList (v :: vs)) s).map .settled
        | _ =>
          if f.isSwitch then
            match f.give Flag.plainValue s with
            | .error e => .error e
            | .ok s => readLetters flags s rest
          else if rest.isEmpty then .ok (.awaits f s (.noLetterValue c (String.ofList [c])))
          else (f.give (String.ofList rest) s).map .settled

def readArgument (flags : List Flag) (s : Settings) (argument : String) :
    Except FlagError Effect :=
  match argument.toList with
  | ['-', '-'] => .ok .stop
  | '-' :: '-' :: cs => readNamed flags s cs
  | '-' :: c :: cs => readLetters flags s (c :: cs)
  | _ => .ok .operand

/-- Reads arguments from left to right. The result has the arguments that are no flags. -/
def readArguments (flags : List Flag) :
    Settings → List String → Except FlagError (Settings × List String)
  | s, [] => .ok (s, [])
  | s, a :: rest =>
    match readArgument flags s a with
    | .error e => .error e
    | .ok .operand => (readArguments flags s rest).map fun (s, operands) => (s, a :: operands)
    | .ok .stop => .ok (s, rest)
    | .ok (.settled s) => readArguments flags s rest
    | .ok (.awaits f s missing) =>
      match rest with
      | [] => .error missing
      | v :: rest =>
        match f.give v s with
        | .error e => .error e
        | .ok s => readArguments flags s rest

/-! ## Looking for words

Which word names the command is decided before the flags are read. An argument that looks like a
flag with a value hides the next one, also if there is no such flag. -/

def hidesNext (flags : List Flag) (argument : String) : Bool :=
  match argument.toList with
  | '-' :: '-' :: cs =>
    !cs.contains '=' && !((named? flags (String.ofList cs)).any (·.isSwitch))
  | ['-', c] => c != '=' && c.toNat < 0x80 && !((lettered? flags c).any (·.isSwitch))
  | _ => false

/-- The arguments that are words. A flag hides the rest if at most one argument follows it. -/
def wordsOf (flags : List Flag) : List String → List String
  | [] => []
  | a :: rest =>
    if a == "--" then []
    else if hidesNext flags a then
      match rest with
      | _ :: b :: rest => wordsOf flags (b :: rest)
      | _ => []
    else if a.isEmpty || a.startsWith "-" then wordsOf flags rest
    else a :: wordsOf flags rest

/-- Removes the first word that reads `word`. -/
def dropWord (flags : List Flag) (word : String) : List String → List String
  | [] => []
  | a :: rest =>
    if a == "--" then a :: rest
    else if hidesNext flags a then
      match rest with
      | [] => [a]
      | v :: rest => a :: v :: dropWord flags word rest
    else if a == word then rest
    else a :: dropWord flags word rest

end Elementwise.CommandLine
