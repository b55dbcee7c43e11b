import Lord.Lib.Bytes

/-! Bech32 and Bech32m over five-bit digits. -/

namespace Lord.Bech32

instance neZeroDigit : NeZero 32 := ⟨by decide⟩

def alphabet : List Char := "qpzry9x8gf2tvdw0s3jn54khce6mua7l".toList

/-- The five-bit digits of bytes, the last one filled up with zeros. -/
def bytesToFes (bytes : Bytes) : List (Fin 32) :=
  let count := (8 * bytes.length + 4) / 5
  let value := bytes.foldl (fun value byte => 256 * value + byte.toNat) 0 *
    2 ^ (5 * count - 8 * bytes.length)
  (List.range count).map fun i => Fin.ofNat 32 (value / 32 ^ (count - 1 - i))

def generators : List Nat := [0x3b6a57b2, 0x26508e6d, 0x1ea119fa, 0x3d4233dd, 0x2a1462b3]

/-- One digit comes to the remainder of the checksum. -/
def polymodStep (residue digit : Nat) : Nat :=
  generators.zipIdx.foldl
    (fun next generator =>
      if (residue >>> 25 >>> generator.2) % 2 = 1 then next ^^^ generator.1 else next)
    ((residue % 2 ^ 25) <<< 5 ^^^ digit)

def expandPrefix (humanPart : String) : List Nat :=
  humanPart.toList.map (fun c => c.toNat / 32) ++ 0 :: humanPart.toList.map fun c => c.toNat % 32

/-- The checksum; the two formats differ in its constant. -/
def checksumWith (constant : Nat) (humanPart : String) (data : List (Fin 32)) : List (Fin 32) :=
  let residue := (expandPrefix humanPart ++ data.map Fin.val ++ List.replicate 6 0).foldl
    polymodStep 1 ^^^ constant
  (List.range 6).map fun i => Fin.ofNat 32 (residue >>> (5 * (5 - i)))

def encodeWith (constant : Nat) (humanPart : String) (data : List (Fin 32)) : String :=
  humanPart ++ "1" ++ String.ofList
    ((data ++ checksumWith constant humanPart data).map fun digit => alphabet.getD digit.val 'q')

/-- Bech32m. -/
def encode (humanPart : String) (data : List (Fin 32)) : String := encodeWith 0x2bc830a3 humanPart data

/-- Bech32 as it was at first. -/
def encodeOriginal (humanPart : String) (data : List (Fin 32)) : String := encodeWith 1 humanPart data

/-- The characters of a text beside those of its human part. -/
theorem mem_encodeWith {constant : Nat} {humanPart : String} {data : List (Fin 32)} {c : Char}
    (h : c ∈ (encodeWith constant humanPart data).toList) :
    c ∈ humanPart.toList ∨ c = '1' ∨ c ∈ alphabet := by
  simp only [encodeWith, String.toList_append, String.toList_ofList, List.mem_append] at h
  rcases h with (hhuman | hone) | hdigits
  · exact .inl hhuman
  · exact .inr (.inl (List.mem_singleton.mp hone))
  · obtain ⟨digit, -, rfl⟩ := List.mem_map.mp hdigits
    have hlength : digit.val < alphabet.length := digit.isLt
    rw [List.getD_eq_getElem?_getD, List.getElem?_eq_getElem hlength, Option.getD_some]
    exact .inr (.inr (List.getElem_mem hlength))

theorem encodeWith_ne_nil (constant : Nat) (humanPart : String) (data : List (Fin 32)) :
    (encodeWith constant humanPart data).toList ≠ [] := by
  simp [encodeWith]

example : encode "a" [] = "a1lqfn3a" := by decide +kernel

example : encodeOriginal "a" [] = "a12uel5l" := by decide +kernel

example : encode "abcdef" ((List.range 32).reverse.map (Fin.ofNat 32)) =
    "abcdef1l7aum6echk45nj3s0wdvt2fg8x9yrzpqzd3ryx" := by decide +kernel

end Lord.Bech32
