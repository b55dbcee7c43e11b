import Lord.Lib.LittleEndian

/-! BLAKE3 on byte strings, with words as numbers below `2 ^ 32`. -/

namespace Lord.Blake3

def initial : List Nat :=
  [0x6a09e667, 0xbb67ae85, 0x3c6ef372, 0xa54ff53a, 0x510e527f, 0x9b05688c, 0x1f83d9ab, 0x5be0cd19]

def permutation : List Nat := [2, 6, 3, 10, 7, 0, 4, 13, 1, 11, 12, 5, 9, 14, 15, 8]

def chunkStart : Nat := 1

def chunkEnd : Nat := 2

def parent : Nat := 4

def root : Nat := 8

def add (x y : Nat) : Nat := (x + y) % 2 ^ 32

def rotr (x count : Nat) : Nat := x >>> count ||| x <<< (32 - count) % 2 ^ 32

/-- The words of a column or a diagonal with two words of the message. -/
def mix (a b c d x y : Nat) : Nat × Nat × Nat × Nat :=
  let a := add a (b + x)
  let d := rotr (d ^^^ a) 16
  let c := add c d
  let b := rotr (b ^^^ c) 12
  let a := add a (b + y)
  let d := rotr (d ^^^ a) 8
  let c := add c d
  let b := rotr (b ^^^ c) 7
  (a, b, c, d)

/-- The words at these places of the state are mixed. -/
def mixAt (state : List Nat) (a b c d x y : Nat) : List Nat :=
  let mixed := mix (state.getD a 0) (state.getD b 0) (state.getD c 0) (state.getD d 0) x y
  (((state.set a mixed.1).set b mixed.2.1).set c mixed.2.2.1).set d mixed.2.2.2

/-- The places of the four columns and the four diagonals. -/
def places : List (Nat × Nat × Nat × Nat) :=
  [(0, 4, 8, 12), (1, 5, 9, 13), (2, 6, 10, 14), (3, 7, 11, 15),
    (0, 5, 10, 15), (1, 6, 11, 12), (2, 7, 8, 13), (3, 4, 9, 14)]

/-- The steps of a round over the remaining places and words. -/
def round : List (Nat × Nat × Nat × Nat) → List Nat → List Nat → List Nat
  | (a, b, c, d) :: rest, x :: y :: words, state => round rest words (mixAt state a b c d x y)
  | _, _, state => state

def rounds : Nat → List Nat → List Nat → List Nat
  | 0, _, state => state
  | count + 1, words, state =>
    rounds count (permutation.map fun place => words.getD place 0) (round places words state)

/-- The chaining value behind a block of sixteen words. -/
def compress (value words : List Nat) (counter length flags : Nat) : List Nat :=
  let state := rounds 7 words
    (value ++ initial.take 4 ++ [counter % 2 ^ 32, counter / 2 ^ 32 % 2 ^ 32, length, flags])
  List.zipWith (· ^^^ ·) (state.take 8) (state.drop 8)

/-- The words of a block of sixty-four bytes; a shorter one ends in zeros. -/
def blockWords (block : Bytes) : List Nat :=
  (List.range 16).map fun i => LittleEndian.decode ((block.drop (4 * i)).take 4)

/-- The remaining blocks of a chunk; `fuel` bounds their number. -/
def chunkBlocks (counter last : Nat) : Nat → Nat → List Nat → Bytes → List Nat
  | 0, _, value, _ => value
  | fuel + 1, flags, value, chunk =>
    if chunk.length ≤ 64 then
      compress value (blockWords chunk) counter chunk.length (flags + chunkEnd + last)
    else
      chunkBlocks counter last fuel 0 (compress value (blockWords (chunk.take 64)) counter 64 flags)
        (chunk.drop 64)

/-- The chaining value of a chunk; the only one carries the flag of the root. -/
def chunk (counter last : Nat) (bytes : Bytes) : List Nat :=
  chunkBlocks counter last (bytes.length + 1) chunkStart initial bytes

def chunks : Nat → Nat → Bytes → List (List Nat)
  | 0, _, _ => []
  | fuel + 1, counter, bytes =>
    if bytes.length ≤ 1024 then [chunk counter 0 bytes]
    else chunk counter 0 (bytes.take 1024) :: chunks fuel (counter + 1) (bytes.drop 1024)

/-- The parents of neighbours; one without a neighbour moves up. -/
def parents : List (List Nat) → List (List Nat)
  | left :: right :: rest => compress initial (left ++ right) 0 64 parent :: parents rest
  | values => values

/-- The root over the values of one level; `fuel` bounds the height. -/
def tree : Nat → List (List Nat) → List Nat
  | _, [left, right] => compress initial (left ++ right) 0 64 (parent + root)
  | fuel + 1, values => tree fuel (parents values)
  | 0, values => values.headD []

def hash (bytes : Bytes) : Bytes :=
  let words := if bytes.length ≤ 1024 then chunk 0 root bytes
    else tree bytes.length (chunks bytes.length 0 bytes)
  (words ++ List.replicate 8 0).take 8 |>.flatMap (LittleEndian.encode 4)

@[simp] theorem length_hash (bytes : Bytes) : (hash bytes).length = 32 := by
  have hwords : ∀ words : List Nat, ((words ++ List.replicate 8 0).take 8).length = 8 := by
    intro words
    simp
  simp only [hash, List.length_flatMap, LittleEndian.length_encode, List.map_const', hwords]
  rfl

end Lord.Blake3
