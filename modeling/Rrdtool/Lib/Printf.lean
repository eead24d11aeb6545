import Mathlib.Tactic

/-!
# Formatted output

A C format as its texts and conversions (`pieces`), and what it prints for some arguments (`print`). How a conversion
prints an argument is a parameter. `vsnprintf` prints into a buffer: it returns the length of the whole text, also where
the buffer has only room for its front (`vsnprintf_le_iff`).
-/

namespace Printf

/-- A part of a format: a text, or a conversion without the percent sign in front of it. -/
inductive Piece where
  | text (s : List Char)
  | conv (spec : List Char)
deriving DecidableEq

/-- The letters that end a conversion. -/
def isConversion (c : Char) : Bool := c = 'd' || c = 'i' || c = 'u' || c = 's' || c = 'e' || c = 'f'

/-- What stands between two percent signs. -/
def behindPercent (s : List Char) : List Piece :=
  match s.span fun c => !isConversion c with
  | (flags, c :: rest) => [.conv (flags ++ [c]), .text rest]
  | (flags, []) => [.text flags]

/-- The parts of a format. -/
def pieces (fmt : List Char) : List Piece :=
  match fmt.splitOn '%' with
  | [] => []
  | first :: specs => .text first :: specs.flatMap behindPercent

variable {α : Type*} (render : List Char → α → Option (List Char))

/-- What the parts print for the arguments, if there are enough of them and each one fits its conversion. -/
def print : List Piece → List α → Option (List Char)
  | [], _ => some []
  | .text s :: ps, args => (print ps args).map (s ++ ·)
  | .conv _ :: _, [] => none
  | .conv spec :: ps, a :: args => do
    let t ← render spec a
    let rest ← print ps args
    return t ++ rest

/-- What `vsnprintf` returns for a buffer of `size` bytes, and what it writes in front of the NUL. -/
@[grind] def vsnprintf (size : ℕ) (text : List Char) : ℕ × List Char := (text.length, text.take (size - 1))

/-- The length that is returned is what has been written only if there is room for the text and a NUL. -/
theorem vsnprintf_le_iff {size : ℕ} (hsize : 0 < size) (text : List Char) :
    (vsnprintf size text).1 ≤ (vsnprintf size text).2.length ↔ text.length < size := by
  rw [vsnprintf, List.length_take]
  omega

end Printf
