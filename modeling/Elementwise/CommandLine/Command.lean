import Elementwise.CommandLine.Flag
import Elementwise.Text.Case
import Elementwise.Text.Distance

/-!
# Commands

A command has its own flags, those of all commands, and a number of operands that it takes.
-/
namespace Elementwise.CommandLine
open Text.Numeral Text.Quoted

def programName : String := "parallaxc"

inductive Command where
  | compile
  | dis
  | verify
  | fingerprint
  | abi
  | version
  | help
  | completion
  deriving DecidableEq, Repr

inductive Operands where
  | any
  | none
  | atLeastOne
  | one
  deriving DecidableEq, Repr

/-! ## Flags -/

def commonFlags : List Flag := [
  ⟨"verbose", some 'v', .switch fun b s => { s with verbose := b }⟩,
  ⟨"no-color", none, .switch fun b s => { s with noColor := b }⟩]

def helpFlag : Flag := ⟨"help", some 'h', .switch fun b s => { s with help := b }⟩

def compileFlags : List Flag := [
  ⟨"output", some 'o', .text fun v s => { s with output := v }⟩,
  ⟨"config", none, .text fun v s => { s with config := v }⟩,
  ⟨"jobs", some 'j', .number fun n s => { s with jobs := some n }⟩,
  ⟨"debug", none, .switch fun b s => { s with debug := some b }⟩,
  ⟨"strict", none, .switch fun b s => { s with strict := some b }⟩,
  ⟨"spirv", none, .text fun v s => { s with spirv := some v }⟩,
  ⟨"cache-dir", none, .text fun v s => { s with cacheDir := some v }⟩]

namespace Command

/-- All commands, in the order in which they are suggested. -/
def all : List Command :=
  [.compile, .dis, .verify, .fingerprint, .abi, .version, .help, .completion]

def name : Command → String
  | .compile => "compile"
  | .dis => "dis"
  | .verify => "verify"
  | .fingerprint => "fingerprint"
  | .abi => "abi"
  | .version => "version"
  | .help => "help"
  | .completion => "completion"

def summary : Command → String
  | .compile => "Compile IR modules to SPIR-V kernels"
  | .dis => "Disassemble a SPIR-V binary"
  | .verify => "Check SPIR-V binaries for structural invariants"
  | .fingerprint => "Print the content fingerprint of IR modules"
  | .abi => "Print the binding layout of the kernel compiled from an IR module"
  | .version => "Print the parallaxc version"
  | .help => "Help about any command"
  | .completion => "Generate the autocompletion script for the specified shell"

def operands : Command → Operands
  | .compile | .verify | .fingerprint => .atLeastOne
  | .dis | .abi => .one
  | .version => .none
  | .help | .completion => .any

/-- The flags of a command, or of no command. -/
def flags : Option Command → List Flag
  | some .compile => compileFlags ++ commonFlags ++ [helpFlag]
  | _ => commonFlags ++ [helpFlag]

def ofName? (name : String) : Option Command := all.find? (·.name == name)

end Command

/-! ## Suggestions -/

/-- How far a suggestion may be from what was typed. -/
def suggestionDistance : Nat := 2

/-- Whether a name is suggested for a word. Capitals count as small letters. -/
def isLike (typed name : String) : Bool :=
  let typed := Text.Utf8.bytes (Text.Case.lowerText typed)
  let name := Text.Utf8.bytes name
  Text.Distance.distance typed name ≤ suggestionDistance || typed.isPrefixOf name

def suggestions (typed : String) : List String :=
  ((Command.all.filter (· != .help)).map (·.name)).filter (isLike typed)

def suggestionText : List String → String
  | [] => ""
  | names => "\n\nDid you mean this?\n" ++ String.join (names.map fun n => "\t" ++ n ++ "\n")

/-! ## Requests -/

inductive UsageError where
  | unknownCommand (word : String)
  | flag (error : FlagError)
  | noOperand
  | notOneOperand (count : Nat)
  | unwantedOperand (word : String) (command : Command)
  deriving DecidableEq, Repr

def UsageError.message : UsageError → String
  | .unknownCommand word =>
    "unknown command " ++ quote word ++ " for " ++ quote programName ++
      suggestionText (suggestions word)
  | .flag e => e.message
  | .noOperand => "requires at least 1 arg(s), only received 0"
  | .notOneOperand count => "accepts 1 arg(s), received " ++ decimal count
  | .unwantedOperand word command =>
    "unknown command " ++ quote word ++ " for " ++ quote (programName ++ " " ++ command.name)

/-- What a command line asks for. Without a command it asks for help. -/
structure Request where
  command : Command
  settings : Settings
  operands : List String
  deriving DecidableEq, Repr

def checkOperands (c : Command) (operands : List String) : Except UsageError Unit :=
  match c.operands, operands with
  | .any, _ => .ok ()
  | .none, [] => .ok ()
  | .none, word :: _ => .error (.unwantedOperand word c)
  | .atLeastOne, [] => .error .noOperand
  | .atLeastOne, _ :: _ => .ok ()
  | .one, [_] => .ok ()
  | .one, _ => .error (.notOneOperand operands.length)

/-- The command that the arguments name, and the other arguments. -/
def findCommand (arguments : List String) : Except UsageError (Option Command × List String) :=
  match wordsOf commonFlags arguments with
  | [] => .ok (none, arguments)
  | word :: _ =>
    match Command.ofName? word with
    | none => .error (.unknownCommand word)
    | some c => .ok (some c, dropWord commonFlags word arguments)

namespace Request

/-- Reads a command line. A request for help is granted whatever the operands are. -/
def ofArguments (arguments : List String) : Except UsageError Request :=
  match findCommand arguments with
  | .error e => .error e
  | .ok (command, rest) =>
    match readArguments (Command.flags command) {} rest with
    | .error e => .error (.flag e)
    | .ok (settings, operands) =>
      let request : Request := ⟨command.getD .help, settings, operands⟩
      if settings.help then .ok { request with command := .help }
      else (checkOperands request.command operands).map fun _ => request

end Request
end Elementwise.CommandLine
