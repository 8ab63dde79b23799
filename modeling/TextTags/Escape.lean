/-!
# Escaped text

Eight characters separate the parts of lists, maps and tags. Inside an item they are written as
entities, an ampersand and a name without an end mark; no name begins another one.
-/

namespace TextTags.Escape

/-- The separators with the names that stand for them after an ampersand. -/
def entities : List (Char × List Char) :=
  [('&', ['a', 'm', 'p']), ('|', ['p', 'i', 'p', 'e']), (';', ['s', 'c']), ('=', ['e', 'q']),
    ('[', ['l', 'b']), (']', ['r', 'b']), ('<', ['l', 't']), ('>', ['g', 't'])]

/-- One character as it stands in escaped text. -/
def escapeChar (c : Char) : List Char :=
  match entities.lookup c with
  | some name => '&' :: name
  | none => [c]

/-- The text with every separator written as an entity. -/
def escape (cs : List Char) : List Char := cs.flatMap escapeChar

/-- The separator whose name stands at the start of a text, with the length of the name. -/
def entityAt? (cs : List Char) : Option (Char × Nat) :=
  (entities.find? fun e => e.2.isPrefixOf cs).map fun e => (e.1, e.2.length)

/-- The text with every entity replaced by its separator. An ampersand that begins no entity
stays. -/
def unescape : List Char → List Char
  | [] => []
  | c :: rest =>
    if c = '&' then
      match entityAt? rest with
      | some (mark, size) => mark :: unescape (rest.drop size)
      | none => '&' :: unescape rest
    else c :: unescape rest
termination_by cs => cs.length
decreasing_by all_goals simp only [List.length_drop, List.length_cons]; omega

/-- Unescaping makes no text longer. -/
theorem length_unescape_le (cs : List Char) : (unescape cs).length ≤ cs.length := by
  fun_induction unescape cs
  all_goals simp_all
  omega

end TextTags.Escape
