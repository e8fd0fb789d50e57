import Pinout.Digest.Sha256

/-! Digests of several parts. Each part is hashed after its own length, so that
moving a boundary between parts changes the digest. -/

set_option autoImplicit false

namespace Pinout.Digest

def lengthBytes (length : Nat) : List UInt8 :=
  (List.range 8).map fun place => UInt8.ofNat (length >>> (8 * place))

def frame (parts : List (List UInt8)) : List UInt8 :=
  parts.flatMap fun part => lengthBytes part.length ++ part

def ofParts (parts : List (List UInt8)) : List UInt8 :=
  Sha256.digest (frame parts)

/-- A hexadecimal digit in lower case. -/
def hexDigit (value : Nat) : Char :=
  if value % 16 < 10 then Char.ofNat (48 + value % 16) else Char.ofNat (87 + value % 16)

def hex (bytes : List UInt8) : String :=
  String.ofList (bytes.flatMap fun byte => [hexDigit (byte.toNat / 16), hexDigit byte.toNat])

end Pinout.Digest
