/-
`parse` (Adafruit_GPS.cpp): the checksum test, and the fields of a GGA or an RMC sentence.

The buffer is what a pointer into it can reach, so `none` is an access behind it or through the null pointer
(Core/CString.lean), a conversion that is undefined, or a loop without end. Floats are rationals, rounded where the
source computes or stores a `float` or a `double` (Core/Rounding.lean); a `float` times -1 or 1000 is exact as a
`double`. `int32` wraps around.

A sentence is tested only if the fourth byte from its end is '*'. The bytes summed are those from the third on: the line
begins with the newline of the line before it, then comes '$'. Fields are written while they are read, also those of
a sentence that turns out to be bad.
-/
import NuStars.Core.CString
import NuStars.Core.Rounding
import NuStars.Packet

namespace NuStars.Gps

open NuStars.CString NuStars.Rounding

/-! ## Characters -/

def chDollar : UInt8 := 0x24
def chStar : UInt8 := 0x2A
def chComma : UInt8 := 0x2C
def chReturn : UInt8 := 0x0D
def chA : UInt8 := 0x41
def chE : UInt8 := 0x45
def chS : UInt8 := 0x53
def chV : UInt8 := 0x56
def chW : UInt8 := 0x57

/-- "$GPGGA" -/
def ggaTag : List UInt8 := [0x24, 0x47, 0x50, 0x47, 0x47, 0x41]

/-- "$GPRMC" -/
def rmcTag : List UInt8 := [0x24, 0x47, 0x50, 0x52, 0x4D, 0x43]

/-! ## Fields -/

/-- latitude or longitude: in units of 10⁻⁷ degrees, as degrees and minutes, and in degrees -/
structure Position where
  fixed : ℤ
  value : ℚ
  degrees : ℚ
  letter : UInt8
deriving DecidableEq, Repr

structure Fields where
  hour : UInt8
  minute : UInt8
  seconds : UInt8
  milliseconds : UInt16
  day : UInt8
  month : UInt8
  year : UInt8
  /-- `latitude_fixed`, `latitude`, `latitudeDegrees` and `lat` -/
  latitude : Position
  /-- `longitude_fixed`, `longitude`, `longitudeDegrees` and `lon` -/
  longitude : Position
  geoidheight : ℚ
  altitude : ℚ
  speed : ℚ
  angle : ℚ
  HDOP : ℚ
  fix : Bool
  fixquality : UInt8
  satellites : UInt8
deriving DecidableEq, Repr

/-- the fields after `common_init` -/
def initialFields : Fields where
  hour := 0
  minute := 0
  seconds := 0
  milliseconds := 0
  day := 0
  month := 0
  year := 0
  latitude := ⟨0, 0, 0, 0⟩
  longitude := ⟨0, 0, 0, 0⟩
  geoidheight := 0
  altitude := 0
  speed := 0
  angle := 0
  HDOP := 0
  fix := false
  fixquality := 0
  satellites := 0

def int32 (x : ℤ) : ℤ := Int.bmod x (2 ^ 32)

/-- towards zero -/
def trunc (q : ℚ) : ℤ := if 0 ≤ q then ⌊q⌋ else ⌈q⌉

/-- conversion to an unsigned type; undefined when it does not fit -/
def toUnsigned (bits : ℕ) (q : ℚ) : Option ℕ :=
  if 0 ≤ trunc q ∧ trunc q < 2 ^ bits then some (trunc q).toNat else none

/-- `strchr(p, ',') + 1` -/
def next (p : List UInt8) : Option (List UInt8) := (strchr chComma p).map List.tail

def setTime (g : Fields) (p : List UInt8) : Option Fields := do
  let timef := single.nearest (atof (← text p))
  let time ← toUnsigned 32 timef
  let milliseconds ← toUnsigned 16 ((timef - trunc timef) * 1000)
  return { g with
    hour := UInt8.ofNat (time / 10000)
    minute := UInt8.ofNat (time % 10000 / 100)
    seconds := UInt8.ofNat (time % 100)
    milliseconds := UInt16.ofNat milliseconds }

/-- the block that parses out latitude or longitude, with two or three digits of degrees; an empty field leaves `x` -/
def coordinate (digits : ℕ) (x : Position) (p : List UInt8) : Option (List UInt8 × Position) := do
  if (← p.head?) = chComma then return (p, x)
  else
    let degree := int32 (atol (← strncpy p digits) * 10000000)
    let p := p.drop digits
    let degreebuff ← strncpy p 2
    let p := p.drop 3
    let minutes := (50 * atol (degreebuff ++ (← strncpy p 4))).tdiv 3
    let part := single.nearest (single.nearest minutes * single.nearest 0.000006)
    let value := single.nearest (single.nearest (degree.tdiv 100000) + part)
    let whole := trunc (single.nearest (value / 100))
    let degrees := single.nearest (double.nearest (single.nearest (value - single.nearest (100 * whole)) / 60))
    return (p, { x with
      fixed := int32 (degree + minutes)
      value := value
      degrees := single.nearest (degrees + single.nearest whole) })

/-- the block behind it: the letter, `minus` for the negative one; `none` inside for `return false` -/
def hemisphere (plus minus : UInt8) (x : Position) (p : List UInt8) : Option (Option Position) := do
  let c ← p.head?
  if c = chComma then return some x
  else if c = minus then return some { x with degrees := x.degrees * -1, letter := minus }
  else if c = plus then return some { x with letter := plus }
  else return none

/-- a field of one number: `p`, and its text unless the field is empty -/
def number (p : List UInt8) : Option (List UInt8 × Option (List UInt8)) := do
  let p ← next p
  if (← p.head?) = chComma then return (p, none)
  else return (p, some (← text p))

/-- a number stored as a float -/
def floatField (x : ℚ) (s : Option (List UInt8)) : ℚ :=
  match s with
  | none => x
  | some s => single.nearest (atof s)

/-- a number stored as a byte -/
def byteField (x : UInt8) (s : Option (List UInt8)) : Option UInt8 :=
  match s with
  | none => some x
  | some s => (atoi s).map fun n => UInt8.ofNat (n % 256).toNat

/-- from the comma before the latitude to the longitude's letter; `false` for `return false` -/
def setPosition (g : Fields) (p : List UInt8) : Option (List UInt8 × Fields × Bool) := do
  let p ← next p
  let (p, latitude) ← coordinate 2 g.latitude p
  let g := { g with latitude }
  let p ← next p
  match ← hemisphere chN chS g.latitude p with
  | none => return (p, g, false)
  | some latitude =>
    let g := { g with latitude }
    let p ← next p
    let (p, longitude) ← coordinate 3 g.longitude p
    let g := { g with longitude }
    let p ← next p
    match ← hemisphere chE chW g.longitude p with
    | none => return (p, g, false)
    | some longitude => return (p, { g with longitude }, true)

def parseGGA (g : Fields) (nmea : List UInt8) : Option (Fields × Bool) := do
  let p ← next nmea
  let g ← setTime g p
  let (p, g, good) ← setPosition g p
  if !good then return (g, false)
  else
    let (p, s) ← number p
    let g := { g with fixquality := ← byteField g.fixquality s }
    let (p, s) ← number p
    let g := { g with satellites := ← byteField g.satellites s }
    let (p, s) ← number p
    let g := { g with HDOP := floatField g.HDOP s }
    let (p, s) ← number p
    let g := { g with altitude := floatField g.altitude s }
    let p ← next p
    let (_, s) ← number p
    return ({ g with geoidheight := floatField g.geoidheight s }, true)

/-- a number stored as a date -/
def setDate (g : Fields) (s : Option (List UInt8)) : Option Fields :=
  match s with
  | none => some g
  | some s => (toUnsigned 32 (atof s)).map fun fulldate =>
    { g with
      day := UInt8.ofNat (fulldate / 10000)
      month := UInt8.ofNat (fulldate % 10000 / 100)
      year := UInt8.ofNat (fulldate % 100) }

def parseRMC (g : Fields) (nmea : List UInt8) : Option (Fields × Bool) := do
  let p ← next nmea
  let g ← setTime g p
  let p ← next p
  let c ← p.head?
  if c ≠ chA ∧ c ≠ chV then return (g, false)
  else
    let g := { g with fix := c == chA }
    let (p, g, good) ← setPosition g p
    if !good then return (g, false)
    else
      let (p, s) ← number p
      let g := { g with speed := floatField g.speed s }
      let (p, s) ← number p
      let g := { g with angle := floatField g.angle s }
      let (_, s) ← number p
      return (← setDate g s, true)

/-! ## The checksum -/

/-- `parseHex`: lower case letters are 0 -/
def parseHex (c : UInt8) : UInt8 :=
  if c < 0x30 then 0
  else if c ≤ 0x39 then c - 0x30
  else if c < 0x41 then 0
  else if c ≤ 0x46 then c - 0x41 + 10
  else 0

/-- `sum` behind the loop, for a sentence of four bytes or more -/
def sum (s : List UInt8) : UInt16 :=
  let n := s.length
  let start := (parseHex (s.getD (n - 3) 0)).toUInt16 * 16 + (parseHex (s.getD (n - 2) 0)).toUInt16
  ((s.drop 2).take (n - 4 - 2)).foldl (fun sum b => sum ^^^ b.toUInt16) start

/-- behind the checksum test -/
def parseSentence (g : Fields) (s nmea : List UInt8) : Option (Fields × Bool) :=
  if ggaTag <:+: s then parseGGA g nmea
  else if rmcTag <:+: s then parseRMC g nmea
  else some (g, false)

def parse (g : Fields) (nmea : List UInt8) : Option (Fields × Bool) := do
  let s ← text nmea
  -- `nmea[strlen(nmea)-4]`
  let c ← if s.length < 4 then none else s[s.length - 4]?
  -- `i` is a byte: the loop does not end
  if c = chStar ∧ 256 ≤ s.length - 4 then none
  else if c = chStar ∧ sum s ≠ 0 then return (g, false)
  else parseSentence g s nmea

end NuStars.Gps
