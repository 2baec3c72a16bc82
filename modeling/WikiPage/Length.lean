import WikiPage.Error

/-!
# Lengths and alignments

The values of the presentational attributes of blocks and rules.
-/

namespace WikiPage

inductive Alignment
  | left | center | right | justify
  deriving DecidableEq, Repr

namespace Alignment

def name : Alignment → String
  | left => "left"
  | center => "center"
  | right => "right"
  | justify => "justify"

def read? (s : String) : Option Alignment :=
  match (Text.onChars Text.trim s).toLower with
  | "left" => some left
  | "center" => some center
  | "right" => some right
  | "justify" => some justify
  | _ => none

example : read? " LEFT\n" = some left := by decide +kernel

end Alignment

/-- A number of pixels or a share of the width. -/
inductive Length
  | pixels (n : UInt32)
  | percent (n : UInt32)
  deriving DecidableEq, Repr

namespace Length

def render : Length → String
  | pixels n => toString n.toNat
  | percent n => toString n.toNat ++ "%"

def number (s : List Char) : Option UInt32 :=
  (Text.natural? UInt32.size (Text.trimEnd s)).map UInt32.ofNat

/-- A number is taken for pixels unless a percent sign follows it. -/
def readChars? (s : List Char) : Option Length :=
  match Text.dropEnding? ['%'] s with
  | some n => (number n).map percent
  | none => (number ((Text.dropEnding? ['p', 'x'] s).getD s)).map pixels

def read? (s : String) : Option Length :=
  readChars? (Text.trim s.toList)

example : read? " +12 px" = some (pixels 12) := by decide +kernel

example : read? "75%" = some (percent 75) := by decide +kernel

example : read? "1.5" = none := by decide +kernel

end Length
end WikiPage
