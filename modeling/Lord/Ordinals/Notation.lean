import Lord.Lib.Checked
import Lord.Lib.Decimal
import Lord.Lib.Float64
import Lord.Ordinals.Sat

/-! The notations of sats and their parser.  Heights are `u32` and sats `u64`; what does not fit
panics, where the functions of `Height` and `Epoch` have the plain numbers. -/

namespace Lord.Ordinals

def cycleEpochs : Nat := 6

def diffchangeInterval : Nat := 2016

/-- `Sat::LAST`. -/
def last : Nat := supply - 1

structure Degree where
  hour : Nat
  minute : Nat
  second : Nat
  third : Nat
  deriving Repr, DecidableEq

def Degree.text (degree : Degree) : String :=
  s!"{degree.hour}°{degree.minute}′{degree.second}″{degree.third}‴"

structure DecimalSat where
  height : Nat
  offset : Nat
  deriving Repr, DecidableEq

def DecimalSat.text (decimal : DecimalSat) : String := s!"{decimal.height}.{decimal.offset}"

inductive Rarity where
  | common
  | uncommon
  | rare
  | epic
  | legendary
  | mythic
  deriving Repr, DecidableEq

namespace Notation

/-! ### Heights -/

/-- `Epoch::starting_height`. -/
def startingHeight (epoch : Nat) : Outcome Nat := Checked.mul 32 epoch subsidyHalvingInterval

/-- `Height::starting_sat`. -/
def startingSat (height : Nat) : Outcome Nat := do
  let epoch := Epoch.ofHeight height
  let epochStartingHeight ← startingHeight epoch
  let blocks ← Checked.sub height epochStartingHeight
  let sats ← Checked.mul 64 blocks (Epoch.subsidy epoch)
  Checked.add 64 (Epoch.startingSat epoch) sats

/-! ### Sats -/

def epochPosition (sat : Nat) : Outcome Nat :=
  Checked.sub sat (Epoch.startingSat (Epoch.ofSat sat))

def height (sat : Nat) : Outcome Nat := do
  let start ← startingHeight (Epoch.ofSat sat)
  let position ← epochPosition sat
  let blocks ← Checked.div position (Epoch.subsidy (Epoch.ofSat sat))
  if blocks < 2 ^ 32 then Checked.add 32 start blocks
  else .error (.panic "called `Result::unwrap()` on an `Err` value: TryFromIntError(())")

def third (sat : Nat) : Outcome Nat := do
  let position ← epochPosition sat
  Checked.rem position (Epoch.subsidy (Epoch.ofSat sat))

def cycle (sat : Nat) : Nat := Epoch.ofSat sat / cycleEpochs

def period (sat : Nat) : Outcome Nat := do
  let height ← height sat
  .ok (height / diffchangeInterval)

/-- `Degree::from(Sat)`. -/
def degree (sat : Nat) : Outcome Degree := do
  let height ← height sat
  let third ← third sat
  .ok ⟨height / (cycleEpochs * subsidyHalvingInterval), height % subsidyHalvingInterval,
    height % diffchangeInterval, third⟩

/-- `DecimalSat::from(Sat)`. -/
def decimal (sat : Nat) : Outcome DecimalSat := do
  let height ← height sat
  let third ← third sat
  .ok ⟨height, third⟩

/-- `Rarity::from(Sat)`. -/
def rarity (sat : Nat) : Outcome Rarity := do
  let degree ← degree sat
  .ok (if degree.hour = 0 ∧ degree.minute = 0 ∧ degree.second = 0 ∧ degree.third = 0 then .mythic
    else if degree.minute = 0 ∧ degree.second = 0 ∧ degree.third = 0 then .legendary
    else if degree.minute = 0 ∧ degree.third = 0 then .epic
    else if degree.second = 0 ∧ degree.third = 0 then .rare
    else if degree.third = 0 then .uncommon
    else .common)

def nineball (sat : Nat) : Bool := 50 * coinValue * 9 ≤ sat && sat < 50 * coinValue * 10

/-- The loop of `palindrome`, which takes a digit off `n` in each round. -/
def reversedFrom : Nat → Nat → Nat → Outcome Nat
  | 0, _, reversed => .ok reversed
  | fuel + 1, n, reversed =>
    if n = 0 then
      .ok reversed
    else do
      let shifted ← Checked.mul 64 reversed 10
      let reversed ← Checked.add 64 shifted (n % 10)
      reversedFrom fuel (n / 10) reversed

def palindrome (sat : Nat) : Outcome Bool := do
  let reversed ← reversedFrom sat sat 0
  .ok (sat = reversed)

def coin (sat : Nat) : Bool := sat % coinValue = 0

/-- `Charm::flag` of the charms of a sat. -/
def flag (bit : Nat) : Nat := 1 <<< bit

def charms (sat : Nat) : Outcome Nat := do
  let palindrome ← palindrome sat
  let rarity ← rarity sat
  let charms := if nineball sat then flag 5 else 0
  let charms := if palindrome then charms ||| flag 13 else charms
  let charms := if coin sat then charms ||| flag 0 else charms
  .ok (match rarity with
    | .common => charms
    | .epic => charms ||| flag 2
    | .legendary => charms ||| flag 3
    | .mythic => charms ||| flag 11
    | .rare => charms ||| flag 6
    | .uncommon => charms ||| flag 9)

def letters : List Char := "abcdefghijklmnopqrstuvwxyz".toList

/-- The letters of a name, the last one first; each round takes one off `x`. -/
def nameFrom : Nat → Nat → List Char
  | 0, _ => []
  | fuel + 1, x =>
    if x = 0 then [] else letters.getD ((x - 1) % 26) 'a' :: nameFrom fuel ((x - 1) / 26)

def name (sat : Nat) : Outcome String := do
  let x ← Checked.sub supply sat
  .ok (String.ofList (nameFrom x x).reverse)

/-! ### The parser -/

inductive ErrorKind where
  | integerRange
  | nameRange
  | nameCharacter
  | percentile
  | blockOffset
  | missingPeriod
  | trailingCharacters
  | missingDegree
  | missingMinute
  | missingSecond
  | periodOffset
  | epochOffset
  | epochPeriodMismatch
  | parseInt (source : Decimal.ParseIntError)
  | parseFloat (source : Float64.ParseFloatError)
  deriving Repr, DecidableEq

namespace ErrorKind

def text : ErrorKind → String
  | integerRange => "invalid integer range"
  | nameRange => "invalid name range"
  | nameCharacter => "invalid character in name"
  | percentile => "invalid percentile"
  | blockOffset => "invalid block offset"
  | missingPeriod => "missing period"
  | trailingCharacters => "trailing character"
  | missingDegree => "missing degree symbol"
  | missingMinute => "missing minute symbol"
  | missingSecond => "missing second symbol"
  | periodOffset => "invalid period offset"
  | epochOffset => "invalid epoch offset"
  | epochPeriodMismatch =>
    "relationship between epoch offset and period offset must be multiple of 336"
  | parseInt source => s!"invalid integer: {source.text}"
  | parseFloat source => s!"invalid float: {source.text}"

/-- The error of a sat that does not parse. -/
def error {α : Type} (kind : ErrorKind) (input : String) : Outcome α :=
  .error (.err s!"failed to parse sat `{input}`: {kind.text}")

end ErrorKind

/-- `split_once`. -/
def splitOnce (separator : Char) : List Char → Option (List Char × List Char)
  | [] => none
  | c :: rest =>
    if c = separator then some ([], rest)
    else (splitOnce separator rest).map fun parts => (c :: parts.1, parts.2)

def splitField (separator : Char) (kind : ErrorKind) (input : String) (text : List Char) :
    Outcome (List Char × List Char) :=
  match splitOnce separator text with
  | some parts => .ok parts
  | none => kind.error input

def parseField (bits : Nat) (input : String) (text : List Char) : Outcome Nat :=
  match Decimal.parse bits text with
  | .ok n => .ok n
  | .error source => (ErrorKind.parseInt source).error input

/-- The loop over the letters of a name. -/
def readName (input : String) (x : Nat) : List Char → Outcome Nat
  | [] => .ok x
  | c :: rest =>
    if 'a' ≤ c ∧ c ≤ 'z' then do
      let x ← Checked.mul 64 x 26
      let x ← Checked.add 64 x c.toNat
      let x ← Checked.sub x 'a'.toNat
      let x ← Checked.add 64 x 1
      if supply < x then ErrorKind.nameRange.error input else readName input x rest
    else
      ErrorKind.nameCharacter.error input

def fromName (input : String) : Outcome Nat := do
  let x ← readName input 0 input.toList
  Checked.sub supply x

/-- `HALVING_INCREMENT`. -/
def halvingIncrement : Nat := subsidyHalvingInterval % diffchangeInterval

/-- For valid degrees the relationship between the offsets grows by 336 every halving. -/
def relationship (epochOffset periodOffset : Nat) : Outcome Nat := do
  let cycle ← Checked.mul 32 subsidyHalvingInterval cycleEpochs
  let sum ← Checked.add 32 periodOffset cycle
  Checked.sub sum epochOffset

/-- The height that `from_degree` computes. -/
def degreeHeight (input : String) (cycleNumber epochOffset periodOffset : Nat) : Outcome Nat := do
  let cycleStartEpoch ← Checked.mul 32 cycleNumber cycleEpochs
  let relationship ← relationship epochOffset periodOffset
  if relationship % halvingIncrement ≠ 0 then
    ErrorKind.epochPeriodMismatch.error input
  else do
    let epoch ← Checked.add 32 cycleStartEpoch
      (relationship % diffchangeInterval / halvingIncrement)
    let start ← Checked.mul 32 epoch subsidyHalvingInterval
    Checked.add 32 start epochOffset

/-- The block offset of a degree, which may be left out, and the rest of the text. -/
def readBlockOffset (input : String) (text : List Char) : Outcome (Nat × List Char) :=
  match splitOnce '‴' text with
  | some (blockOffset, rest) => do
    let blockOffset ← parseField 64 input blockOffset
    .ok (blockOffset, rest)
  | none => .ok (0, text)

def fromDegree (input : String) : Outcome Nat := do
  let (cycleNumber, rest) ← splitField '°' .missingDegree input input.toList
  let cycleNumber ← parseField 32 input cycleNumber
  let (epochOffset, rest) ← splitField '′' .missingMinute input rest
  let epochOffset ← parseField 32 input epochOffset
  if subsidyHalvingInterval ≤ epochOffset then
    ErrorKind.epochOffset.error input
  else do
    let (periodOffset, rest) ← splitField '″' .missingSecond input rest
    let periodOffset ← parseField 32 input periodOffset
    if diffchangeInterval ≤ periodOffset then
      ErrorKind.periodOffset.error input
    else do
      let height ← degreeHeight input cycleNumber epochOffset periodOffset
      let (blockOffset, rest) ← readBlockOffset input rest
      if rest ≠ [] then
        ErrorKind.trailingCharacters.error input
      else if Height.subsidy height ≤ blockOffset then
        ErrorKind.blockOffset.error input
      else do
        let start ← startingSat height
        Checked.add 64 start blockOffset

def fromDecimal (input : String) : Outcome Nat := do
  let (height, offset) ← splitField '.' .missingPeriod input input.toList
  let height ← parseField 32 input height
  let offset ← parseField 64 input offset
  if Height.subsidy height ≤ offset then
    ErrorKind.blockOffset.error input
  else do
    let start ← startingSat height
    Checked.add 64 start offset

/-- Percentiles of the last sat; `NAN` is cast to zero. -/
def fromPercentile (input : String) : Outcome Nat :=
  if input.toList.getLast? ≠ some '%' then
    ErrorKind.percentile.error input
  else
    match Float64.parse input.toList.dropLast with
    | .error source => (ErrorKind.parseFloat source).error input
    | .ok percentile =>
      if percentile < 0 then
        ErrorKind.percentile.error input
      else
        let last := (UInt64.ofNat last).toFloat
        let n := Float64.round (percentile / 100 * last)
        if last < n then ErrorKind.percentile.error input else .ok n.toUInt64.toNat

/-- `Sat::from_str`. -/
def fromStr (s : String) : Outcome Nat :=
  if s.toList.any fun c => 'a' ≤ c && c ≤ 'z' then
    fromName s
  else if '°' ∈ s.toList then
    fromDegree s
  else if '%' ∈ s.toList then
    fromPercentile s
  else if '.' ∈ s.toList then
    fromDecimal s
  else do
    let sat ← parseField 64 s s.toList
    if last < sat then ErrorKind.integerRange.error s else .ok sat

end Notation

end Lord.Ordinals
