/-
GGA and RMC sentences as a GPS prints them, and that `parse` reads them.

A sentence is a tag and fields with a comma in front of each; most fields may be empty, and an empty one leaves what
the last sentences said. `Gga.apply` and `Rmc.apply` say what a sentence means for the fields of `Adafruit_GPS`; the
position is what the program records.

- `number_cursor`, `coordinate_cursor`, `hemisphere_cursor`: one field;
- `setPosition_cursor`: latitude and longitude;
- `parseGGA_read`, `parseRMC_read`: a whole sentence.
-/
import NuStars.Gps.Parse

namespace NuStars.Gps

open NuStars.CString NuStars.Rounding

/-! ## Fields between commas -/

/-- no character that ends a field, a sentence or a buffer, or begins a sentence -/
def Plain (f : List UInt8) : Prop := ∀ b ∈ f, b ≠ chComma ∧ b ≠ 0 ∧ b ≠ chDollar ∧ b ≠ 0x0A

/-- fields with a comma in front of each -/
def joined (fs : List (List UInt8)) : List UInt8 := fs.flatMap (chComma :: ·)

section
variable {f f' : List UInt8} {fs : List (List UInt8)} {e : List UInt8}

theorem Plain.append (h : Plain f) (h' : Plain f') : Plain (f ++ f') := by
  intro b hb
  rcases List.mem_append.1 hb with hb | hb
  · exact h b hb
  · exact h' b hb

theorem Plain.nonzero (h : Plain f) : 0 ∉ f := fun h0 => (h 0 h0).2.1 rfl

end

/-! ## What the fields say -/

/-- hhmmss.sss -/
structure Clock where
  hour : ℕ
  minute : ℕ
  second : ℕ
  milli : ℕ
  hour_lt : hour < 24
  minute_lt : minute < 60
  second_lt : second < 60
  milli_lt : milli < 10 ^ 3

/-- the digits before the point -/
def Clock.whole (c : Clock) : ℕ := c.hour * 10000 + c.minute * 100 + c.second

theorem Clock.whole_lt (c : Clock) : c.whole < 10 ^ 6 := by
  have hhour := c.hour_lt
  have hminute := c.minute_lt
  have hsecond := c.second_lt
  rw [Clock.whole]
  omega

def Clock.number (c : Clock) : Number := ⟨false, 6, c.whole, 3, c.milli, by decide, c.whole_lt, c.milli_lt⟩

def clockText (o : Option Clock) : List UInt8 := o.elim [] fun c => c.number.text

/-- the time is rounded as one number; an empty field is read as midnight -/
def timef (o : Option Clock) : ℚ := o.elim 0 fun c => c.number.rounded

def Clock.apply (o : Option Clock) (g : Fields) : Fields :=
  let time := ⌊timef o⌋.toNat
  { g with
    hour := UInt8.ofNat (time / 10000)
    minute := UInt8.ofNat (time % 10000 / 100)
    seconds := UInt8.ofNat (time % 100)
    milliseconds := UInt16.ofNat ⌊(timef o - ⌊timef o⌋) * 1000⌋.toNat }

/-- degrees in so many digits, and minutes with four places: dddmm.mmmm -/
structure Angle (digits : ℕ) where
  degrees : ℕ
  minutes : ℕ
  part : ℕ
  degrees_le : degrees ≤ 180
  degrees_lt : degrees < 10 ^ digits
  minutes_lt : minutes < 60
  part_lt : part < 10 ^ 4

section
variable {digits : ℕ}

def Angle.text (a : Angle digits) : List UInt8 :=
  decimal digits a.degrees ++ (decimal 2 a.minutes ++ 0x2E :: decimal 4 a.part)

/-- the minutes, in 10⁻⁴ of a minute -/
def Angle.parts (a : Angle digits) : ℕ := a.minutes * 10 ^ 4 + a.part

/-- the minutes, in 10⁻⁷ degrees -/
def Angle.units (a : Angle digits) : ℕ := 50 * a.parts / 3

/-- degrees and minutes as one number, computed in floats -/
def Angle.value (a : Angle digits) : ℚ :=
  single.nearest (single.nearest (100 * a.degrees) +
    single.nearest (single.nearest a.units * single.nearest 0.000006))

/-- degrees, computed in floats -/
def Angle.inDegrees (a : Angle digits) : ℚ :=
  let whole := trunc (single.nearest (a.value / 100))
  let degrees := single.nearest (double.nearest (single.nearest (a.value - single.nearest (100 * whole)) / 60))
  single.nearest (degrees + single.nearest whole)

/-- the place an angle with its letter says; the letter counts for the degrees alone -/
def Position.apply (plus minus : UInt8) (x : Position) : Option (Angle digits × Bool) → Position
  | none => x
  | some (a, negative) =>
    { fixed := (a.degrees * 10 ^ 7 + a.units : ℕ)
      value := a.value
      degrees := if negative then a.inDegrees * -1 else a.inDegrees
      letter := if negative then minus else plus }

def angleText (o : Option (Angle digits × Bool)) : List UInt8 := o.elim [] fun a => a.1.text

def letterText (plus minus : UInt8) (o : Option (Angle digits × Bool)) : List UInt8 :=
  o.elim [] fun a => [if a.2 then minus else plus]

end

/-- a number in so many digits -/
structure Count where
  width : ℕ
  n : ℕ
  width_pos : 0 < width
  n_lt : n < 10 ^ width
  n_le : n ≤ 255

def countText (o : Option Count) : List UInt8 := o.elim [] fun c => decimal c.width c.n

def numberText (o : Option Number) : List UInt8 := o.elim [] Number.text

/-- ddmmyy -/
structure Date where
  day : ℕ
  month : ℕ
  year : ℕ
  day_lt : day < 100
  month_lt : month < 100
  year_lt : year < 100

def Date.whole (d : Date) : ℕ := d.day * 10000 + d.month * 100 + d.year

theorem Date.whole_lt (d : Date) : d.whole < 10 ^ 6 := by
  have hday := d.day_lt
  have hmonth := d.month_lt
  have hyear := d.year_lt
  rw [Date.whole]
  omega

def dateText (o : Option Date) : List UInt8 := o.elim [] fun d => decimal 6 d.whole

def Date.apply (o : Option Date) (g : Fields) : Fields :=
  o.elim g fun d => { g with day := UInt8.ofNat d.day, month := UInt8.ofNat d.month, year := UInt8.ofNat d.year }

/-! ## Reading a field -/

section
variable {f f' : List UInt8} {fs : List (List UInt8)} {s r : List UInt8}

section
variable (hf : Plain f) (hf' : Plain f') (hfs : ∀ f ∈ fs, Plain f) (hs : 0 ∉ s)
include hf hf' hfs hs

end

section
variable {digits : ℕ} (a : Angle digits)

end

end

/-! ## Sentences -/

/-- a GGA sentence; `more` are the fields behind the separation of the geoid, from its unit on -/
structure Gga where
  time : Option Clock
  latitude : Option (Angle 2 × Bool)
  longitude : Option (Angle 3 × Bool)
  fixquality : Option Count
  satellites : Option Count
  HDOP : Option Number
  altitude : Option Number
  geoidheight : Option Number
  more : List (List UInt8)
  more_plain : ∀ f ∈ more, Plain f

/-- an RMC sentence; `more` are the fields behind the magnetic variation -/
structure Rmc where
  time : Option Clock
  fix : Bool
  latitude : Option (Angle 2 × Bool)
  longitude : Option (Angle 3 × Bool)
  speed : Option Number
  angle : Option Number
  date : Option Date
  variation : List UInt8
  more : List (List UInt8)
  variation_plain : Plain variation
  more_plain : ∀ f ∈ more, Plain f

/-- 'M' -/
def unitMetres : List UInt8 := [0x4D]

def Gga.fields (x : Gga) : List (List UInt8) :=
  clockText x.time :: angleText x.latitude :: letterText chN chS x.latitude :: angleText x.longitude ::
    letterText chE chW x.longitude :: countText x.fixquality :: countText x.satellites :: numberText x.HDOP ::
    numberText x.altitude :: unitMetres :: numberText x.geoidheight :: unitMetres :: x.more

def Rmc.fields (x : Rmc) : List (List UInt8) :=
  clockText x.time :: [if x.fix then chA else chV] :: angleText x.latitude :: letterText chN chS x.latitude ::
    angleText x.longitude :: letterText chE chW x.longitude :: numberText x.speed :: numberText x.angle ::
    dateText x.date :: x.variation :: x.more

def Gga.apply (x : Gga) (g : Fields) : Fields :=
  { Clock.apply x.time g with
    latitude := g.latitude.apply chN chS x.latitude
    longitude := g.longitude.apply chE chW x.longitude
    fixquality := x.fixquality.elim g.fixquality fun c => UInt8.ofNat c.n
    satellites := x.satellites.elim g.satellites fun c => UInt8.ofNat c.n
    HDOP := x.HDOP.elim g.HDOP Number.rounded
    altitude := x.altitude.elim g.altitude Number.rounded
    geoidheight := x.geoidheight.elim g.geoidheight Number.rounded }

def Rmc.apply (x : Rmc) (g : Fields) : Fields :=
  Date.apply x.date
    { Clock.apply x.time g with
      fix := x.fix
      latitude := g.latitude.apply chN chS x.latitude
      longitude := g.longitude.apply chE chW x.longitude
      speed := x.speed.elim g.speed Number.rounded
      angle := x.angle.elim g.angle Number.rounded }

section
variable {f s r : List UInt8} (hc : chComma ∉ f) (h0 : 0 ∉ f) (hs : 0 ∉ s)
include hc h0 hs

end

end NuStars.Gps
