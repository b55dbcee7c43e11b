import Lord.Lib.Bytes

/-! SHA-256 on byte strings, with words as numbers below `2 ^ 32`. -/

namespace Lord.Sha256

def roundConstants : List Nat :=
  [ 0x428a2f98, 0x71374491, 0xb5c0fbcf, 0xe9b5dba5, 0x3956c25b, 0x59f111f1, 0x923f82a4, 0xab1c5ed5,
    0xd807aa98, 0x12835b01, 0x243185be, 0x550c7dc3, 0x72be5d74, 0x80deb1fe, 0x9bdc06a7, 0xc19bf174,
    0xe49b69c1, 0xefbe4786, 0x0fc19dc6, 0x240ca1cc, 0x2de92c6f, 0x4a7484aa, 0x5cb0a9dc, 0x76f988da,
    0x983e5152, 0xa831c66d, 0xb00327c8, 0xbf597fc7, 0xc6e00bf3, 0xd5a79147, 0x06ca6351, 0x14292967,
    0x27b70a85, 0x2e1b2138, 0x4d2c6dfc, 0x53380d13, 0x650a7354, 0x766a0abb, 0x81c2c92e, 0x92722c85,
    0xa2bfe8a1, 0xa81a664b, 0xc24b8b70, 0xc76c51a3, 0xd192e819, 0xd6990624, 0xf40e3585, 0x106aa070,
    0x19a4c116, 0x1e376c08, 0x2748774c, 0x34b0bcb5, 0x391c0cb3, 0x4ed8aa4a, 0x5b9cca4f, 0x682e6ff3,
    0x748f82ee, 0x78a5636f, 0x84c87814, 0x8cc70208, 0x90befffa, 0xa4506ceb, 0xbef9a3f7, 0xc67178f2 ]

/-- The eight words of the state. -/
structure State where
  (a b c d e f g h : Nat)
  deriving DecidableEq

def initial : State :=
  ⟨0x6a09e667, 0xbb67ae85, 0x3c6ef372, 0xa54ff53a,
    0x510e527f, 0x9b05688c, 0x1f83d9ab, 0x5be0cd19⟩

def add (x y : Nat) : Nat := (x + y) % 2 ^ 32

def rotr (x count : Nat) : Nat := x >>> count ||| x <<< (32 - count) % 2 ^ 32

/-- One round with a constant and a word of the schedule. -/
def round (s : State) (constant word : Nat) : State :=
  let sigma1 := rotr s.e 6 ^^^ rotr s.e 11 ^^^ rotr s.e 25
  let choice := s.e &&& s.f ^^^ (2 ^ 32 - 1 - s.e) &&& s.g
  let temp1 := (s.h + sigma1 + choice + constant + word) % 2 ^ 32
  let sigma0 := rotr s.a 2 ^^^ rotr s.a 13 ^^^ rotr s.a 22
  let majority := s.a &&& s.b ^^^ s.a &&& s.c ^^^ s.b &&& s.c
  ⟨add temp1 (sigma0 + majority), s.a, s.b, s.c, add s.d temp1, s.e, s.f, s.g⟩

/-- The word that follows the sixteen last words of the schedule, oldest first. -/
def nextWord (window : List Nat) : Nat :=
  let w1 := window.getD 1 0
  let w14 := window.getD 14 0
  let sigma0 := rotr w1 7 ^^^ rotr w1 18 ^^^ w1 >>> 3
  let sigma1 := rotr w14 17 ^^^ rotr w14 19 ^^^ w14 >>> 10
  (window.headD 0 + sigma0 + window.getD 9 0 + sigma1) % 2 ^ 32

/-- The rounds over the remaining constants. -/
def rounds (window : List Nat) (s : State) : List Nat → State
  | [] => s
  | constant :: rest =>
    rounds (window.tail ++ [nextWord window]) (round s constant (window.headD 0)) rest

def compress (s : State) (window : List Nat) : State :=
  let t := rounds window s roundConstants
  ⟨add s.a t.a, add s.b t.b, add s.c t.c, add s.d t.d, add s.e t.e, add s.f t.f, add s.g t.g,
    add s.h t.h⟩

/-- The big-endian words of a byte string. -/
def words : Bytes → List Nat
  | b0 :: b1 :: b2 :: b3 :: rest =>
    (b0.toNat * 2 ^ 24 + b1.toNat * 2 ^ 16 + b2.toNat * 2 ^ 8 + b3.toNat) :: words rest
  | _ => []

/-- The message with its padding: a set bit, zeros up to the last eight bytes of a block, and the
length in bits. -/
def pad (message : Bytes) : Bytes :=
  message ++ 0x80 :: List.replicate ((119 - message.length % 64) % 64) 0 ++
    (List.range 8).map fun i => UInt8.ofNat (8 * message.length / 256 ^ (7 - i))

/-- The compression of sixteen words at a time. -/
def blocks : Nat → State → List Nat → State
  | 0, s, _ => s
  | count + 1, s, message => blocks count (compress s (message.take 16)) (message.drop 16)

def wordBytes (word : Nat) : Bytes :=
  [UInt8.ofNat (word / 2 ^ 24), UInt8.ofNat (word / 2 ^ 16), UInt8.ofNat (word / 2 ^ 8),
    UInt8.ofNat word]

def hash (message : Bytes) : Bytes :=
  let message := words (pad message)
  let s := blocks (message.length / 16) initial message
  [s.a, s.b, s.c, s.d, s.e, s.f, s.g, s.h].flatMap wordBytes

@[simp] theorem length_hash (message : Bytes) : (hash message).length = 32 := by
  simp [hash, wordBytes]

end Lord.Sha256
