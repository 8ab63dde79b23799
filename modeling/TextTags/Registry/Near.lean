import TextTags.Text.Pieces

/-!
# Names that come near

Two names look alike when one occurs in the other, when they begin alike, or when few characters
have to be edited to turn one into the other.
-/

namespace TextTags.Near

open Text

/-- The rest of a row of the table of distances: the entry for one more character of each text comes
from the entries to its left and above. -/
def extendRow (c : Char) : List Char → List Nat → Nat → List Nat
  | b :: bs, diagonal :: above :: row, left =>
    let change := if c = b then diagonal else diagonal + 1
    let here := min change (min (above + 1) (left + 1))
    here :: extendRow c bs (above :: row) here
  | _, _, _ => []

/-- The distances of a text with one more character from every beginning of the other text. -/
def nextRow (other : List Char) (row : List Nat) (c : Char) : List Nat :=
  let first := row.headD 0 + 1
  first :: extendRow c other row first

/-- The least number of single characters to insert, delete or replace that turns one text into
another. -/
def editDistance (a b : List Char) : Nat :=
  (a.foldl (nextRow b) (List.range (b.length + 1))).getLastD 0

/-- The number of characters at the start that two texts share. -/
def sharedStart : List Char → List Char → Nat
  | a :: as, b :: bs => if a = b then sharedStart as bs + 1 else 0
  | _, _ => 0

/-- Whether a candidate may be what a key was meant to be. -/
def looksLike (candidate key : String) : Bool :=
  let a := candidate.toList
  let b := key.toList
  (3 ≤ byteLength b && (occursIn b a || occursIn a b)) || 4 ≤ sharedStart a b ||
    editDistance a b ≤ 2

end TextTags.Near
