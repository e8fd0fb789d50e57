/-! SHA-256 over a list of bytes. Words are 32 bits wide and additions wrap; bytes
enter and leave a word with the most significant one first. -/

set_option autoImplicit false

namespace Pinout.Sha256

def rotate (word : UInt32) (count : UInt32) : UInt32 :=
  (word >>> count) ||| (word <<< (32 - count))

def roundConstants : List UInt32 :=
  [0x428a2f98, 0x71374491, 0xb5c0fbcf, 0xe9b5dba5, 0x3956c25b, 0x59f111f1,
    0x923f82a4, 0xab1c5ed5, 0xd807aa98, 0x12835b01, 0x243185be, 0x550c7dc3,
    0x72be5d74, 0x80deb1fe, 0x9bdc06a7, 0xc19bf174, 0xe49b69c1, 0xefbe4786,
    0x0fc19dc6, 0x240ca1cc, 0x2de92c6f, 0x4a7484aa, 0x5cb0a9dc, 0x76f988da,
    0x983e5152, 0xa831c66d, 0xb00327c8, 0xbf597fc7, 0xc6e00bf3, 0xd5a79147,
    0x06ca6351, 0x14292967, 0x27b70a85, 0x2e1b2138, 0x4d2c6dfc, 0x53380d13,
    0x650a7354, 0x766a0abb, 0x81c2c92e, 0x92722c85, 0xa2bfe8a1, 0xa81a664b,
    0xc24b8b70, 0xc76c51a3, 0xd192e819, 0xd6990624, 0xf40e3585, 0x106aa070,
    0x19a4c116, 0x1e376c08, 0x2748774c, 0x34b0bcb5, 0x391c0cb3, 0x4ed8aa4a,
    0x5b9cca4f, 0x682e6ff3, 0x748f82ee, 0x78a5636f, 0x84c87814, 0x8cc70208,
    0x90befffa, 0xa4506ceb, 0xbef9a3f7, 0xc67178f2]

/-- The eight words that are carried from block to block. -/
structure State where
  a : UInt32
  b : UInt32
  c : UInt32
  d : UInt32
  e : UInt32
  f : UInt32
  g : UInt32
  h : UInt32

/-- The words before the first block. -/
def State.initial : State :=
  ⟨0x6a09e667, 0xbb67ae85, 0x3c6ef372, 0xa54ff53a,
    0x510e527f, 0x9b05688c, 0x1f83d9ab, 0x5be0cd19⟩

def State.add (left right : State) : State :=
  ⟨left.a + right.a, left.b + right.b, left.c + right.c, left.d + right.d,
    left.e + right.e, left.f + right.f, left.g + right.g, left.h + right.h⟩

def State.words (state : State) : List UInt32 :=
  [state.a, state.b, state.c, state.d, state.e, state.f, state.g, state.h]

def State.round (state : State) (word constant : UInt32) : State :=
  let upperSum := rotate state.e 6 ^^^ rotate state.e 11 ^^^ rotate state.e 25
  let choice := (state.e &&& state.f) ^^^ (~~~state.e &&& state.g)
  let first := state.h + upperSum + choice + constant + word
  let lowerSum := rotate state.a 2 ^^^ rotate state.a 13 ^^^ rotate state.a 22
  let majority := (state.a &&& state.b) ^^^ (state.a &&& state.c) ^^^ (state.b &&& state.c)
  ⟨first + lowerSum + majority, state.a, state.b, state.c,
    state.d + first, state.e, state.f, state.g⟩

def wordsOf : List UInt8 → List UInt32
  | first :: second :: third :: fourth :: rest =>
    (first.toUInt32 <<< 24 ||| second.toUInt32 <<< 16 |||
      third.toUInt32 <<< 8 ||| fourth.toUInt32) :: wordsOf rest
  | _ => []

/-- The word after the given ones, which are listed latest first. -/
def nextWord (latest : List UInt32) : UInt32 :=
  let near := latest.getD 1 0
  let far := latest.getD 14 0
  let nearMix := rotate near 17 ^^^ rotate near 19 ^^^ (near >>> 10)
  let farMix := rotate far 7 ^^^ rotate far 18 ^^^ (far >>> 3)
  nearMix + latest.getD 6 0 + farMix + latest.getD 15 0

/-- Extend a list of words, latest first, by the given number of words. -/
def extend : Nat → List UInt32 → List UInt32
  | 0, latest => latest
  | count + 1, latest => extend count (nextWord latest :: latest)

def schedule (block : List UInt8) : List UInt32 :=
  (extend 48 (wordsOf block).reverse).reverse

def compress (state : State) (block : List UInt8) : State :=
  ((schedule block).zip roundConstants).foldl
    (fun current (word, constant) => current.round word constant) state |>.add state

/-- The bytes of a number, most significant first, cut to the given width. -/
def bigEndian (width value : Nat) : List UInt8 :=
  (List.range width).reverse.map fun place => UInt8.ofNat (value >>> (8 * place))

/-- A message with its end mark, zeros up to a block less eight bytes, and its
length in bits. -/
def pad (message : List UInt8) : List UInt8 :=
  let zeros := (119 - message.length % 64) % 64
  message ++ [0x80] ++ List.replicate zeros 0 ++ bigEndian 8 (8 * message.length)

def blocks (bytes : List UInt8) : List (List UInt8) :=
  if bytes.length < 64 then []
  else bytes.take 64 :: blocks (bytes.drop 64)
termination_by bytes.length

def digest (message : List UInt8) : List UInt8 :=
  ((blocks (pad message)).foldl compress State.initial).words.flatMap
    fun word => bigEndian 4 word.toNat

theorem length_digest (message : List UInt8) : (digest message).length = 32 := by
  simp [digest, State.words, bigEndian]

end Pinout.Sha256
