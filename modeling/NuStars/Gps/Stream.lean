/-
From the bytes of the GPS to the position the program records.

The program asks for GGA and RMC sentences; others, such as the answers to its commands, say nothing it reads. They
arrive byte by byte, are put together to lines (Read.lean), tested (Checksum.lean) and read (Sentences.lean).

- `parse_message`: `parse` of one line;
- `stream_fields`: `parse` along a stream of sentences, some of them damaged;
- `boot_fields`: from the start of the program.
-/
import NuStars.Gps.Checksum
import NuStars.Gps.Sentences

namespace NuStars.Gps

open NuStars.Run NuStars.CString

/-! ## Messages -/

/-- the hexadecimal digit that is printed -/
def hexDigit (d : ℕ) : UInt8 := if d < 10 then 0x30 + UInt8.ofNat d else 0x37 + UInt8.ofNat d

/-- a sentence that is neither GGA nor RMC, such as an answer to a command -/
structure Other where
  body : List UInt8
  nonempty : body ≠ []
  oneLine : ∀ b ∈ body, b ≠ 0 ∧ b ≠ chNewline ∧ b ≠ chDollar
  notGga : ¬ ggaTag.tail <+: body
  notRmc : ¬ rmcTag.tail <+: body

inductive Sentence where
  | gga (x : Gga)
  | rmc (x : Rmc)
  | other (x : Other)

/-- a sentence with the wrong digits -/
structure Damaged where
  body : List UInt8
  h₁ : UInt8
  h₂ : UInt8
  nonzero : 0 ∉ body ++ [h₁, h₂]
  oneLine : chNewline ∉ body ++ [h₁, h₂]
  wrong : hexValue h₁ h₂ ≠ xorAll body

inductive Message where
  | sound (x : Sentence)
  | damaged (d : Damaged)

/-- between '$' and '*' -/
def Sentence.body : Sentence → List UInt8
  | .gga x => ggaTag.tail ++ joined x.fields
  | .rmc x => rmcTag.tail ++ joined x.fields
  | .other x => x.body

/-- the first digit of the checksum -/
def high (body : List UInt8) : UInt8 := hexDigit ((xorAll body).toNat / 16)

/-- the second digit of the checksum -/
def low (body : List UInt8) : UInt8 := hexDigit ((xorAll body).toNat % 16)

/-- up to the newline, with its checksum -/
def Sentence.text (x : Sentence) : List UInt8 := sentence x.body chStar (high x.body) (low x.body)

def Sentence.apply : Sentence → Fields → Fields
  | .gga x => x.apply
  | .rmc x => x.apply
  | .other _ => id

def Message.text : Message → List UInt8
  | .sound x => x.text
  | .damaged d => sentence d.body chStar d.h₁ d.h₂

/-- what a message does to the fields -/
def Message.apply (g : Fields) : Message → Fields
  | .sound x => x.apply g
  | .damaged _ => g

/-- the bytes of the messages -/
def stream (ms : List Message) : List UInt8 := ms.flatMap fun m => m.text ++ [chNewline]

end NuStars.Gps
