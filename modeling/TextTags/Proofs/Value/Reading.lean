import TextTags.Proofs.Text.Escape
import TextTags.Proofs.Text.Pieces
import TextTags.Value.Reading

/-!
# Reading what identities write

A text with a mark is read by its mark. Cutting the body of a list, a map or an object gives back
the escaped items, keys and values that its identity was put together from.
-/

namespace TextTags

open Text Escape

namespace Value

/-- The identity of an element is its text. -/
theorem identity_element (text : String) : (Value.element text).identity = text := by
  rw [identity, identityChars, String.ofList_toList]

/-- A text without a mark is an element. -/
theorem ofChars_plain {cs : List Char} (h : '@' ∉ cs) (draw : Draws) :
    ofChars cs draw = .element (.ofList cs) := by
  rw [ofChars]
  split
  · rfl
  · next found =>
    rw [splitOnce_eq_none h] at found
    contradiction

/-- The value that a text with a mark reads as, if it is one of the mark. -/
def marked? (cs mark rest : List Char) (draw : Draws) : Option Value :=
  match asciiLowerChars mark with
  | ['d'] => (Duration.ofChars? cs draw).map .duration
  | ['t', 'i', 'm', 'e'] => (Time.ofChars? cs).map .time
  | ['l', 'i'] => some (.list ((listPieces rest).mapIdx fun i p ↦
      ofChars (unescape p) (draw.within i)))
  | ['m', 'a', 'p'] => (mapPieces? rest).map fun pairs ↦ .map (entriesOfPieces pairs draw)
  | ['q'] => if rest.isEmpty then none else some (.queue (.ofList rest))
  | ['s'] => if rest.isEmpty then none else some (.script (.ofList rest))
  | ['c', 'u', 's', 't', 'o', 'm'] =>
    if (containerPieces rest).1.isEmpty then none
    else (mapPieces? (containerPieces rest).2).map fun pairs ↦
      .custom (.ofList (unescape (containerPieces rest).1)) (entriesOfPieces pairs draw)
  | _ => none

/-- Two maps over a list, of which the second looks at the places, are one. -/
theorem mapIdx_map {α β γ : Type} (l : List α) (g : α → β) (f : Nat → β → γ) :
    (l.map g).mapIdx f = l.mapIdx fun i a ↦ f i (g a) :=
  List.ext_getElem (by simp) fun i _ _ ↦ by simp

private theorem mapIdx_attach {α β : Type} (l : List α) (f : Nat → α → β) :
    (l.attach.mapIdx fun i p ↦ f i p.1) = l.mapIdx f := by
  rw [← mapIdx_map l.attach Subtype.val f, List.attach_map_subtype_val]

/-- A text with a mark is what it reads as by the mark, and else an element. -/
theorem ofChars_marked (mark : List Char) (h : '@' ∉ mark) (rest : List Char) (draw : Draws) :
    ofChars (mark ++ '@' :: rest) draw =
      (marked? (mark ++ '@' :: rest) mark rest draw).getD
        (.element (.ofList (mark ++ '@' :: rest))) := by
  rw [ofChars]
  split
  · next absent =>
    rw [splitOnce_append h] at absent
    contradiction
  · next mark' rest' found =>
    rw [splitOnce_append h] at found
    simp only [Option.some.injEq, Prod.mk.injEq] at found
    obtain ⟨rfl, rfl⟩ := found
    dsimp only
    -- One case for each mark. The recursive ones are written over `attach`, for the termination.
    split
    · next low => simp only [marked?, low]
    · next low => simp only [marked?, low]
    · next low =>
      simp only [marked?, low]
      rw [mapIdx_attach (listPieces rest) fun i p ↦ ofChars (unescape p) (draw.within i)]
    · next low =>
      simp only [marked?, low]
      split
      · next h => rw [h, Option.map_none]
      · next pairs cut =>
        rw [cut, Option.map_some, entriesOfPieces, mapIdx_attach pairs fun i p ↦
          (String.ofList (unescape p.1), ofChars (unescape p.2) (draw.within i))]
    · next low => simp only [marked?, low]
    · next low => simp only [marked?, low]
    · next low =>
      simp only [marked?, low]
      split
      · rfl
      · split
        · next h => rw [h, Option.map_none]
        · next pairs cut =>
          rw [cut, Option.map_some, entriesOfPieces, mapIdx_attach pairs fun i p ↦
            (String.ofList (unescape p.1), ofChars (unescape p.2) (draw.within i))]
    · simp only [marked?]

private theorem itemsChars_eq_append {items : List Value} (h : items ≠ []) :
    ∃ cs, itemsChars items = cs ++ ['|'] := by
  induction items with
  | nil => contradiction
  | cons v rest ih =>
    rw [itemsChars]
    cases rest with
    | nil => exact ⟨escape (identityChars v), by rw [itemsChars]⟩
    | cons w rest =>
      obtain ⟨cs, eq⟩ := ih (by simp)
      exact ⟨escape (identityChars v) ++ '|' :: cs, by rw [eq]; simp⟩

private theorem splitWhere_itemsChars (items : List Value) :
    splitWhere (· == '|') (itemsChars items) =
      (items.map fun v ↦ escape v.identityChars) ++ [[]] := by
  induction items with
  | nil => rfl
  | cons v rest ih =>
    have plain : ∀ c ∈ escape (identityChars v), (c == '|') = false := by
      intro c mem
      simpa using fun eq : c = '|' ↦ not_mem_escape (by decide) _ (eq ▸ mem)
    rw [itemsChars, splitWhere_append_cons plain rfl, ih, List.map_cons, List.cons_append]

/-- The pieces of a list's body are its escaped items. -/
theorem listPieces_itemsChars (items : List Value) :
    listPieces (itemsChars items) = items.map fun v ↦ escape v.identityChars := by
  by_cases h : items = []
  · subst h
    rfl
  · obtain ⟨cs, eq⟩ := itemsChars_eq_append h
    have cut := splitWhere_itemsChars items
    rw [eq, splitWhere_append_mark rfl] at cut
    have nonempty : (cs ++ ['|']).isEmpty = false := by simp
    rw [listPieces, eq, nonempty]
    simpa using List.append_cancel_right cut

private theorem pairTexts_eq (es : Entries Value) :
    pairTexts es = es.map fun e ↦ pairChars e.1.toList e.2.identityChars := by
  induction es with
  | nil => rfl
  | cons e rest ih =>
    obtain ⟨key, v⟩ := e
    rw [pairTexts, ih, List.map_cons]

private theorem withinBrackets_bracketed (pairs : List (List Char)) :
    withinBrackets (bracketed pairs) = joinWith [';'] pairs := by
  simp [bracketed, withinBrackets]

private theorem cutPairs?_pairChars (es : Entries Value) :
    cutPairs? (es.map fun e ↦ pairChars e.1.toList e.2.identityChars) =
      some (es.map fun e ↦ (escape e.1.toList, escape e.2.identityChars)) := by
  induction es with
  | nil => rfl
  | cons e rest ih =>
    have cut := splitOnce_append (not_mem_escape (c := '=') (by decide) e.1.toList)
      (escape e.2.identityChars)
    rw [List.map_cons, cutPairs?, pairChars, cut, ih]
    rfl

/-- The pieces of a map's body are its escaped keys and values. -/
theorem mapPieces?_bracketed (es : Entries Value) :
    mapPieces? (bracketed (pairTexts es)) =
      some (es.map fun e ↦ (escape e.1.toList, escape e.2.identityChars)) := by
  rw [mapPieces?, withinBrackets_bracketed]
  by_cases h : es = []
  · subst h
    rfl
  · have plain : ∀ piece ∈ pairTexts es, ';' ∉ piece := by
      intro piece mem
      rw [pairTexts_eq] at mem
      obtain ⟨e, -, rfl⟩ := List.mem_map.1 mem
      have apart := not_mem_escape (c := ';') (by decide)
      simp [pairChars, apart]
    have filled : ∀ piece ∈ pairTexts es, (!piece.isEmpty) = true := by
      intro piece mem
      rw [pairTexts_eq] at mem
      obtain ⟨e, -, rfl⟩ := List.mem_map.1 mem
      simp [pairChars]
    have pieces : pairTexts es ≠ [] := by
      rw [pairTexts_eq]
      simpa using h
    rw [splitWhere_joinWith pieces plain, List.filter_eq_self.2 filled, pairTexts_eq,
      cutPairs?_pairChars]

/-- The pieces of an object's body are its escaped container and the body of its fields. -/
theorem containerPieces_escape (container : List Char) (pairs : List (List Char)) :
    containerPieces (escape container ++ bracketed pairs) =
      (escape container, bracketed pairs) := by
  have plain : ∀ c ∈ escape container, (c != '[') = true := by
    intro c mem
    simpa using fun eq : c = '[' ↦ not_mem_escape (by decide) _ (eq ▸ mem)
  rw [containerPieces, List.takeWhile_append_of_pos plain, List.dropWhile_append_of_pos plain,
    bracketed, List.cons_append]
  simp

/-- Unescaped pieces stand for the entries again. -/
theorem entriesOfPieces_escape (es : Entries Value) (draw : Draws) :
    entriesOfPieces (es.map fun e ↦ (escape e.1.toList, escape e.2.identityChars)) draw =
      Entries.insertAll []
        (es.mapIdx fun i e ↦ (e.1, ofIdentity e.2.identity (draw.within i))) := by
  simp [entriesOfPieces, mapIdx_map, unescape_escape, ofIdentity, identity]

/-- The brackets of tags and of parameters. -/
def brackets : List Char := ['[', ']', '<', '>']

/-- The brackets, one by one. -/
theorem mem_brackets {c : Char} : c ∈ brackets ↔ c = '[' ∨ c = ']' ∨ c = '<' ∨ c = '>' := by
  simp [brackets]

end Value

end TextTags
