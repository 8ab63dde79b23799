import TextTags.Number.Binary64

/-!
# Random draws

Random numbers are made of draws. A text may hold several ranges to draw from, and a caller may ask
for several: there is a draw for every range at every place in a text. The draws are a tree, with the
places on the way down and the ends of a range last. They are laid down beforehand, so that the same
range at the same place gives the same number again.
-/

namespace TextTags

/-- The draws of random numbers, each under the path to its place and range. -/
structure Draws where
  drawn : List Int → Nat

namespace Draws

/-- The draws by which each range gives its lower end. -/
def least : Draws := ⟨fun _ => 0⟩

/-- The draws that follow from a seed, by a linear congruence at each step of the path. -/
def ofSeed (seed : Nat) : Draws where
  drawn path := Int.toNat <| path.foldl
    (fun n step => (6364136223846793005 * (n + step) + 1442695040888963407) % Nat.pow 2 128) seed

instance : Coe Nat Draws := ⟨ofSeed⟩

/-- The draws for what is at a place. -/
def within (d : Draws) (place : Nat) : Draws := ⟨fun path => d.drawn (place :: path)⟩

/-- The integer drawn between two others, both included. -/
def integer (d : Draws) (a b : Int) : Int :=
  let low := min a b
  low + (d.drawn [a, b] % ((max a b - low).toNat + 1) : Nat)

/-- The number drawn from 0 up to 1, in steps of `2 ^ -53`. -/
def number (d : Draws) : Float := Number.ofRatio false (d.drawn [] % Nat.pow 2 53) (Nat.pow 2 53)

end Draws

end TextTags
