namespace Bhasha

/-!
# SHA-256

The digest of a text is the SHA-256 digest of its UTF-8 bytes in hexadecimal.
A message is padded to whole blocks of sixteen words, and every block is
compressed into the eight words of the state.
-/

namespace Digest

/-- The round constants: the first bits of the cube roots of the first 64 primes. -/
def roundConstants : List UInt32 :=
  [0x428a2f98, 0x71374491, 0xb5c0fbcf, 0xe9b5dba5, 0x3956c25b, 0x59f111f1, 0x923f82a4, 0xab1c5ed5,
   0xd807aa98, 0x12835b01, 0x243185be, 0x550c7dc3, 0x72be5d74, 0x80deb1fe, 0x9bdc06a7, 0xc19bf174,
   0xe49b69c1, 0xefbe4786, 0x0fc19dc6, 0x240ca1cc, 0x2de92c6f, 0x4a7484aa, 0x5cb0a9dc, 0x76f988da,
   0x983e5152, 0xa831c66d, 0xb00327c8, 0xbf597fc7, 0xc6e00bf3, 0xd5a79147, 0x06ca6351, 0x14292967,
   0x27b70a85, 0x2e1b2138, 0x4d2c6dfc, 0x53380d13, 0x650a7354, 0x766a0abb, 0x81c2c92e, 0x92722c85,
   0xa2bfe8a1, 0xa81a664b, 0xc24b8b70, 0xc76c51a3, 0xd192e819, 0xd6990624, 0xf40e3585, 0x106aa070,
   0x19a4c116, 0x1e376c08, 0x2748774c, 0x34b0bcb5, 0x391c0cb3, 0x4ed8aa4a, 0x5b9cca4f, 0x682e6ff3,
   0x748f82ee, 0x78a5636f, 0x84c87814, 0x8cc70208, 0x90befffa, 0xa4506ceb, 0xbef9a3f7, 0xc67178f2]

/-- The eight words that are carried from block to block. -/
structure State where
  a : UInt32
  b : UInt32
  c : UInt32
  d : UInt32
  e : UInt32
  f : UInt32
  g : UInt32
  h : UInt32

/-- The state before the first block: the first bits of the square roots of the first 8 primes. -/
def State.initial : State :=
  ⟨0x6a09e667, 0xbb67ae85, 0x3c6ef372, 0xa54ff53a, 0x510e527f, 0x9b05688c, 0x1f83d9ab, 0x5be0cd19⟩

/-- Rotate a word to the right. -/
def rotate (word : UInt32) (count : UInt32) : UInt32 :=
  (word >>> count) ||| (word <<< (32 - count))

/-- One round on a state with a word of the schedule and a round constant. -/
def State.round (s : State) (word constant : UInt32) : State :=
  let sumE := rotate s.e 6 ^^^ rotate s.e 11 ^^^ rotate s.e 25
  let choice := (s.e &&& s.f) ^^^ (~~~s.e &&& s.g)
  let first := s.h + sumE + choice + constant + word
  let sumA := rotate s.a 2 ^^^ rotate s.a 13 ^^^ rotate s.a 22
  let majority := (s.a &&& s.b) ^^^ (s.a &&& s.c) ^^^ (s.b &&& s.c)
  ⟨first + (sumA + majority), s.a, s.b, s.c, s.d + first, s.e, s.f, s.g⟩

/-- The sum of two states, word by word. -/
def State.add (s t : State) : State :=
  ⟨s.a + t.a, s.b + t.b, s.c + t.c, s.d + t.d, s.e + t.e, s.f + t.f, s.g + t.g, s.h + t.h⟩

/-- The word that follows sixteen words of a schedule. -/
def nextWord (window : Array UInt32) : UInt32 :=
  let early := window.getD 1 0
  let late := window.getD 14 0
  let mixedEarly := rotate early 7 ^^^ rotate early 18 ^^^ (early >>> 3)
  let mixedLate := rotate late 17 ^^^ rotate late 19 ^^^ (late >>> 10)
  window.getD 0 0 + mixedEarly + window.getD 9 0 + mixedLate

/-- Run the rounds of a block: each takes the first of the next sixteen words of the schedule. -/
def rounds : List UInt32 → Array UInt32 → State → State
  | [], _, state => state
  | constant :: rest, window, state =>
      let next := state.round (window.getD 0 0) constant
      rounds rest ((window.extract 1 16).push (nextWord window)) next

/-- Compress a block of sixteen words into a state. -/
def State.compress (state : State) (block : Array UInt32) : State :=
  state.add (rounds roundConstants block state)

/-- The word of four bytes, the most significant first. -/
def word (bytes : List UInt8) : UInt32 :=
  bytes.foldl (fun value byte => (value <<< 8) ||| byte.toUInt32) 0

/-- The bytes of a number, the most significant first. -/
def bigEndian (count value : Nat) : List UInt8 :=
  (List.range count).reverse.map fun place => UInt8.ofNat (value >>> (8 * place))

/-- A message with a one bit, zero bits and its length in bits, up to a whole number of blocks. -/
def pad (message : List UInt8) : List UInt8 :=
  let length := message.length
  let zeros := (119 - length % 64) % 64
  message ++ 0x80 :: List.replicate zeros 0 ++ bigEndian 8 (8 * length)

/-- Compress bytes, gathered into blocks of sixteen words, into a state. -/
def absorb (state : State) (block : Array UInt32) : List UInt8 → State
  | a :: b :: c :: d :: rest =>
      let block := block.push (word [a, b, c, d])
      if block.size = 16 then absorb (state.compress block) #[] rest
      else absorb state block rest
  | _ => state

/-- The eight digits of a word to the base sixteen. -/
def wordDigits (word : UInt32) : List Char :=
  (List.range 8).reverse.map fun place => Nat.digitChar ((word.toNat >>> (4 * place)) % 16)

/-- The digits of a state to the base sixteen. -/
def State.digits (s : State) : List Char :=
  [s.a, s.b, s.c, s.d, s.e, s.f, s.g, s.h].flatMap wordDigits

end Digest

/-- The SHA-256 digest of the UTF-8 bytes of a text, in hexadecimal. -/
def digest (text : String) : String :=
  String.ofList (Digest.absorb Digest.State.initial #[] (Digest.pad text.toUTF8.toList)).digits

end Bhasha
