import Pinout.Digest.Framing
import Pinout.Named
import Pinout.Text.Numeral

/-! Structured reports. A report is written as JSON over several lines, two spaces for
each level, with the members of a record in the order of their names. -/

set_option autoImplicit false

namespace Pinout.Report

/-- The content of a report. -/
inductive Document where
  | null
  | flag (value : Bool)
  | number (value : Nat)
  | text (value : String)
  | list (items : List Document)
  | record (members : List (String × Document))

namespace Document

/-- A record with its members sorted by name. -/
def ofMembers (members : List (String × Document)) : Document :=
  .record (members.foldl (fun sorted (name, value) => Named.put name value sorted) [])

def ofText? : Option String → Document
  | none => .null
  | some value => .text value

def escape (char : Char) : List Char :=
  if char = '"' then ['\\', '"']
  else if char = '\\' then ['\\', '\\']
  else if char = '\x08' then ['\\', 'b']
  else if char = '\x0c' then ['\\', 'f']
  else if char = '\n' then ['\\', 'n']
  else if char = '\r' then ['\\', 'r']
  else if char = '\t' then ['\\', 't']
  else if char.toNat < 0x20 then
    ['\\', 'u', '0', '0', Digest.hexDigit (char.toNat / 16), Digest.hexDigit char.toNat]
  else [char]

def quote (text : String) : List Char :=
  '"' :: text.toList.flatMap escape ++ ['"']

def newLine (level : Nat) : List Char :=
  '\n' :: List.replicate (2 * level) ' '

mutual

def write (level : Nat) : Document → List Char
  | .null => ['n', 'u', 'l', 'l']
  | .flag true => ['t', 'r', 'u', 'e']
  | .flag false => ['f', 'a', 'l', 's', 'e']
  | .number value => Text.digitsOf value
  | .text value => quote value
  | .list [] => ['[', ']']
  | .list (first :: rest) =>
    '[' :: newLine (level + 1) ++ write (level + 1) first ++ writeItems (level + 1) rest ++
      newLine level ++ [']']
  | .record [] => ['\x7b', '\x7d']
  | .record ((name, value) :: rest) =>
    '\x7b' :: newLine (level + 1) ++ quote name ++ [':', ' '] ++
      write (level + 1) value ++ writeMembers (level + 1) rest ++
      newLine level ++ ['\x7d']

def writeItems (level : Nat) : List Document → List Char
  | [] => []
  | item :: rest => ',' :: newLine level ++ write level item ++ writeItems level rest

def writeMembers (level : Nat) : List (String × Document) → List Char
  | [] => []
  | (name, value) :: rest =>
    ',' :: newLine level ++ quote name ++ [':', ' '] ++ write level value ++
      writeMembers level rest

end

def render (document : Document) : String :=
  String.ofList (document.write 0)

end Document

end Pinout.Report
