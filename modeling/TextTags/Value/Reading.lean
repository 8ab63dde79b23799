import TextTags.Value.Basic

/-!
# Reading values

A value is read from its identity by the mark before the first `@`. Text without a mark, and text
that does not read as its mark promises, is an element.
-/

namespace TextTags

open Text Escape

namespace Value

/-- The escaped items of a list, with or without a bar after the last one. -/
def listPieces (body : List Char) : List (List Char) :=
  if body.isEmpty then []
  else splitWhere (· == '|') (if body.getLast? = some '|' then body.dropLast else body)

/-- The text between an opening bracket at the start and a closing one at the end, or the whole. -/
def withinBrackets : List Char → List Char
  | '[' :: rest => if rest.getLast? = some ']' then rest.dropLast else '[' :: rest
  | cs => cs

/-- Cuts each entry at its first equals sign; none if one has no such sign. -/
def cutPairs? : List (List Char) → Option (List (List Char × List Char))
  | [] => some []
  | piece :: rest => do
    let pair ← splitOnce '=' piece
    let pairs ← cutPairs? rest
    some (pair :: pairs)

/-- The escaped keys and values of a map; none if a non-empty entry has no equals sign. -/
def mapPieces? (body : List Char) : Option (List (List Char × List Char)) :=
  cutPairs? ((splitWhere (· == ';') (withinBrackets body)).filter (!·.isEmpty))

/-- The name of a container and the text of its fields. -/
def containerPieces (body : List Char) : List Char × List Char :=
  (body.takeWhile (· != '['), body.dropWhile (· != '['))

/-- No piece of a list is longer than its body. -/
theorem length_of_mem_listPieces {body piece : List Char} (h : piece ∈ listPieces body) :
    piece.length ≤ body.length := by
  unfold listPieces at h
  split at h
  · simp at h
  · have := length_le_of_mem_splitWhere h
    split at this
    · rw [List.length_dropLast] at this; omega
    · exact this

private theorem length_withinBrackets_le (body : List Char) :
    (withinBrackets body).length ≤ body.length := by
  unfold withinBrackets
  split
  · split
    · simp only [List.length_dropLast, List.length_cons]; omega
    · exact Nat.le_refl _
  · exact Nat.le_refl _

private theorem mem_of_cutPairs {pieces : List (List Char)} {pairs : List (List Char × List Char)}
    {pair : List Char × List Char} (h : cutPairs? pieces = some pairs) (mem : pair ∈ pairs) :
    ∃ piece ∈ pieces, splitOnce '=' piece = some pair := by
  induction pieces generalizing pairs with
  | nil => simp_all [cutPairs?]
  | cons piece rest ih =>
    simp only [cutPairs?, bind, Option.bind_eq_some_iff, Option.some.injEq] at h
    obtain ⟨first, hfirst, others, hothers, rfl⟩ := h
    rcases List.mem_cons.1 mem with rfl | mem
    · exact ⟨piece, List.mem_cons_self, hfirst⟩
    · obtain ⟨p, hp, hsplit⟩ := ih hothers mem
      exact ⟨p, List.mem_cons_of_mem _ hp, hsplit⟩

/-- No value of a map is as long as its body. -/
theorem length_of_mem_mapPieces {body : List Char} {pairs : List (List Char × List Char)}
    {pair : List Char × List Char} (h : mapPieces? body = some pairs) (mem : pair ∈ pairs) :
    pair.2.length < body.length := by
  obtain ⟨piece, hpiece, hsplit⟩ := mem_of_cutPairs h mem
  have := length_splitOnce hsplit
  have := length_le_of_mem_splitWhere (List.mem_filter.1 hpiece |>.1)
  have := length_withinBrackets_le body
  omega

/-- The fields of an object are no longer than its body. -/
theorem length_containerPieces_le (body : List Char) :
    (containerPieces body).2.length ≤ body.length :=
  (List.dropWhile_suffix _).length_le

/-- Reads a value from its identity. Each item of a list and each entry of a map has draws of its
own. -/
def ofChars (cs : List Char) (draw : Draws := .least) : Value :=
  match _ : splitOnce '@' cs with
  | none => .element (.ofList cs)
  | some (mark, rest) =>
    let read? : Option Value :=
      match asciiLowerChars mark with
      | ['d'] => (Duration.ofChars? cs draw).map .duration
      | ['t', 'i', 'm', 'e'] => (Time.ofChars? cs).map .time
      | ['l', 'i'] => some (.list ((listPieces rest).attach.mapIdx fun i p =>
          ofChars (unescape p.1) (draw.within i)))
      | ['m', 'a', 'p'] =>
        match _ : mapPieces? rest with
        | none => none
        | some pairs => some (.map (Entries.insertAll [] (pairs.attach.mapIdx fun i p =>
            (.ofList (unescape p.1.1), ofChars (unescape p.1.2) (draw.within i)))))
      | ['q'] => if rest.isEmpty then none else some (.queue (.ofList rest))
      | ['s'] => if rest.isEmpty then none else some (.script (.ofList rest))
      | ['c', 'u', 's', 't', 'o', 'm'] =>
        if (containerPieces rest).1.isEmpty then none
        else match _ : mapPieces? (containerPieces rest).2 with
          | none => none
          | some pairs => some (.custom (.ofList (unescape (containerPieces rest).1))
              (Entries.insertAll [] (pairs.attach.mapIdx fun i p =>
                (.ofList (unescape p.1.1), ofChars (unescape p.1.2) (draw.within i)))))
      | _ => none
    read?.getD (.element (.ofList cs))
termination_by cs.length
decreasing_by
  all_goals have := length_splitOnce ‹splitOnce '@' cs = some (mark, rest)›
  · have := length_of_mem_listPieces p.2
    have := length_unescape_le p.1
    omega
  · have := length_of_mem_mapPieces ‹mapPieces? rest = some pairs› p.2
    have := length_unescape_le p.1.2
    omega
  · have := length_of_mem_mapPieces ‹mapPieces? (containerPieces rest).2 = some pairs› p.2
    have := length_containerPieces_le rest
    have := length_unescape_le p.1.2
    omega

/-- Reads a value from its identity. -/
def ofIdentity (text : String) (draw : Draws := .least) : Value := ofChars text.toList draw

/-! ## Reading as one kind -/

/-- The mark before the identity of a list. -/
def listMark : List Char := ['l', 'i', '@']

/-- The mark before the identity of a map. -/
def mapMark : List Char := ['m', 'a', 'p', '@']

/-- The mark before the identity of a custom object. -/
def customMark : List Char := ['c', 'u', 's', 't', 'o', 'm', '@']

/-- The items of a list, after its mark or without it. -/
def itemsOfChars (cs : List Char) (draw : Draws := .least) : List Value :=
  (listPieces ((dropStart? listMark cs).getD cs)).mapIdx fun i p =>
    ofChars (unescape p) (draw.within i)

/-- The items of a list, after its mark or without it. -/
def itemsOfText (text : String) (draw : Draws := .least) : List Value :=
  itemsOfChars text.toList draw

/-- The entries that escaped keys and values stand for. -/
def entriesOfPieces (pairs : List (List Char × List Char)) (draw : Draws) : Entries Value :=
  Entries.insertAll [] (pairs.mapIdx fun i p =>
    (.ofList (unescape p.1), ofChars (unescape p.2) (draw.within i)))

/-- The entries of a map, after its mark or without it. -/
def entriesOfChars? (cs : List Char) (draw : Draws := .least) : Option (Entries Value) :=
  (mapPieces? ((dropStart? mapMark cs).getD cs)).map (entriesOfPieces · draw)

/-- The entries of a map, after its mark or without it. -/
def entriesOfText? (text : String) (draw : Draws := .least) : Option (Entries Value) :=
  entriesOfChars? text.toList draw

/-- The container and the fields of a custom object; its mark must be there. -/
def customOfChars? (cs : List Char) (draw : Draws := .least) :
    Option (String × Entries Value) := do
  let body ← dropStart? customMark cs
  let (name, fields) := containerPieces body
  if name.isEmpty then none
  let pairs ← mapPieces? fields
  some (.ofList (unescape name), entriesOfPieces pairs draw)

/-- The container and the fields of a custom object; its mark must be there. -/
def customOfText? (text : String) (draw : Draws := .least) : Option (String × Entries Value) :=
  customOfChars? text.toList draw

end Value

end TextTags
