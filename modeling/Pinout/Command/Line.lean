import Pinout.Command.Basic
import Pinout.Text.Split

/-! Command lines. The first word names the command; the others are operands and
options, in any order. After two lone dashes every word is an operand. -/

set_option autoImplicit false

namespace Pinout.Command

/-- What is wrong with a command line. -/
inductive LineFault where
  | noCommand
  | unknownCommand (name : String)
  | unknownOption (name : String)
  | repeatedOption (name : String)
  | noValue (name : String)
  | unwantedValue (name : String)
  | missing (operand : String)
  | unwanted (operand : String)
deriving DecidableEq

def LineFault.message : LineFault → String
  | .noCommand => "no command given (expected convert, check, pins or tables)"
  | .unknownCommand name =>
    s!"unknown command: {name} (expected convert, check, pins or tables)"
  | .unknownOption name => s!"unknown option: --{name}"
  | .repeatedOption name => s!"option given twice: --{name}"
  | .noValue name => s!"option needs a value: --{name}"
  | .unwantedValue name => s!"option takes no value: --{name}"
  | .missing operand => s!"missing operand: {operand}"
  | .unwanted operand => s!"unexpected operand: {operand}"

/-- The options that a command knows: those with a value and those without. -/
structure Vocabulary where
  valued : List String
  flags : List String

/-- The words of a command line by role. A flag has an empty value. -/
structure Words where
  operands : List String
  options : List (String × String)

def Words.value? (words : Words) (name : String) : Option String :=
  words.options.lookup name

def Words.path? (words : Words) (name : String) : Option File.Path :=
  (words.value? name).map File.Path.mk

def Words.addOption (words : Words) (name value : String) : Except LineFault Words :=
  if (words.value? name).isSome then .error (.repeatedOption name)
  else .ok { words with options := words.options ++ [(name, value)] }

/-- An option and the value that is attached to it, if any. -/
def splitOption (option : List Char) : String × Option String :=
  match Text.cut? ['='] option with
  | none => (String.ofList option, none)
  | some (name, value) => (String.ofList name, some (String.ofList value))

def Words.collect (vocabulary : Vocabulary) : Words → List String → Except LineFault Words
  | words, [] => .ok words
  | words, word :: rest =>
    match word.toList with
    | ['-', '-'] => .ok { words with operands := words.operands ++ rest }
    | '-' :: '-' :: option =>
      let (name, attached) := splitOption option
      if vocabulary.flags.contains name then
        match attached with
        | some _ => .error (.unwantedValue name)
        | none => do collect vocabulary (← words.addOption name "") rest
      else if vocabulary.valued.contains name then
        match attached, rest with
        | some value, rest => do collect vocabulary (← words.addOption name value) rest
        | none, value :: rest => do collect vocabulary (← words.addOption name value) rest
        | none, [] => .error (.noValue name)
      else .error (.unknownOption name)
    | _ => collect vocabulary { words with operands := words.operands ++ [word] } rest

def Convert.Request.ofWords (words : Words) : Except LineFault Convert.Request := do
  let (input, output) ← match words.operands with
    | [] => throw (.missing "input")
    | [input] => pure (input, none)
    | [input, output] => pure (input, some output)
    | _ :: _ :: extra :: _ => throw (.unwanted extra)
  return {
    input := ⟨input⟩
    output := output.map File.Path.mk
    mcu := words.value? "mcu"
    tables := words.path? "tables"
    force := (words.value? "force").isSome
    report := words.value? "report" }

def Check.Request.ofWords (words : Words) : Except LineFault Check.Request :=
  match words.operands with
  | [] => .error (.missing "inputs")
  | inputs =>
    .ok {
      inputs := inputs.map File.Path.mk
      mcu := words.value? "mcu"
      tables := words.path? "tables" }

def Pins.Request.ofWords (words : Words) : Except LineFault Pins.Request :=
  match words.operands with
  | [] => .error (.missing "mcu")
  | [_] => .error (.missing "pin")
  | [mcu, pin] =>
    .ok { mcu, pin, kind := words.value? "kind", tables := words.path? "tables" }
  | _ :: _ :: extra :: _ => .error (.unwanted extra)

def Request.ofLine : List String → Except LineFault Request
  | [] => .error .noCommand
  | name :: rest => do
    match name with
    | "convert" =>
      let words ← Words.collect ⟨["mcu", "tables", "report"], ["force"]⟩ ⟨[], []⟩ rest
      return .convert (← Convert.Request.ofWords words)
    | "check" =>
      let words ← Words.collect ⟨["mcu", "tables"], []⟩ ⟨[], []⟩ rest
      return .check (← Check.Request.ofWords words)
    | "pins" =>
      let words ← Words.collect ⟨["kind", "tables"], []⟩ ⟨[], []⟩ rest
      return .pins (← Pins.Request.ofWords words)
    | "tables" =>
      let words ← Words.collect ⟨["tables"], []⟩ ⟨[], []⟩ rest
      match words.operands with
      | [] => return .tables (words.path? "tables")
      | extra :: _ => throw (.unwanted extra)
    | _ => throw (.unknownCommand name)

end Pinout.Command
