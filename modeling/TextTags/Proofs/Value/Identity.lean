import TextTags.Proofs.Duration
import TextTags.Proofs.Entries
import TextTags.Proofs.Value.Reading

/-!
# Values read back from their identities

A value is stable when each text, number and time in it reads back on its own. Nesting adds no
condition: a stable value of any depth is read back from its identity, equal to what it was.
-/

namespace TextTags

open Text Escape

namespace Value

/-- A value whose parts read back on their own. Entries are those that insertion gives. -/
inductive Stable : Value → Prop
  | element {text : String} (reads : ofIdentity text = .element text) : Stable (.element text)
  | list {items : List Value} (stable : ∀ v ∈ items, Stable v) : Stable (.list items)
  | map (pairs : List (String × Value))
      (stable : ∀ e ∈ Entries.insertAll [] pairs, Stable e.2) :
      Stable (.map (Entries.insertAll [] pairs))
  | duration {span : Duration} (finite : span.seconds.isFinite) : Stable (.duration span)
  | time {t : Time} (reads : Time.ofChars? t.identityChars = some t) : Stable (.time t)
  | queue {id : String} (named : id ≠ "") : Stable (.queue id)
  | script {name : String} (named : name ≠ "") : Stable (.script name)
  | custom {container : String} (named : container ≠ "") (pairs : List (String × Value))
      (stable : ∀ e ∈ Entries.insertAll [] pairs, Stable e.2) :
      Stable (.custom container (Entries.insertAll [] pairs))

/-- An identity is read by its characters. -/
theorem ofIdentity_identity_eq (v : Value) (draw : Draws) :
    ofIdentity v.identity draw = ofChars v.identityChars draw := by
  rw [ofIdentity, identity, String.toList_ofList]

private theorem marked?_ne_element {cs mark rest : List Char} {draw : Draws} {text : String} :
    marked? cs mark rest draw ≠ some (.element text) := by
  unfold marked?
  split <;> simp

/-- Whether a text is one of its mark does not depend on what is drawn. -/
theorem isSome_marked? (cs mark rest : List Char) (draw draw' : Draws) :
    (marked? cs mark rest draw).isSome = (marked? cs mark rest draw').isSome := by
  unfold marked?
  split
  · rw [Option.isSome_map, Option.isSome_map]
    exact Duration.isSome_ofLower? _ draw draw'
  · rfl
  · rfl
  · rw [Option.isSome_map, Option.isSome_map]
  · rfl
  · rfl
  · split
    · rfl
    · rw [Option.isSome_map, Option.isSome_map]
  · rfl

/-- Whether a text reads as the element that it is does not depend on what is drawn. -/
theorem ofIdentity_eq_element {text : String} {draw : Draws}
    (h : ofIdentity text draw = .element text) (draw' : Draws) :
    ofIdentity text draw' = .element text := by
  unfold ofIdentity at h ⊢
  by_cases marked : '@' ∈ text.toList
  · obtain ⟨mark, rest, eq, first⟩ := List.eq_append_cons_of_mem marked
    rw [eq, ofChars_marked mark first, ← eq, String.ofList_toList] at h ⊢
    have same := isSome_marked? text.toList mark rest draw' draw
    cases read : marked? text.toList mark rest draw with
    | none =>
      rw [read, Option.isSome_none, Option.isSome_eq_false_iff, Option.isNone_iff_eq_none] at same
      rw [same, Option.getD_none]
    | some v =>
      rw [read, Option.getD_some] at h
      exact absurd (h ▸ read) marked?_ne_element
  · rw [ofChars_plain marked draw', String.ofList_toList]

private theorem toList_ne_nil {s : String} (h : s ≠ "") : s.toList ≠ [] := by
  simpa using h

private theorem escape_ne_nil {cs : List Char} (h : cs ≠ []) : escape cs ≠ [] := by
  intro hno
  have := unescape_escape cs
  rw [hno, unescape] at this
  exact h this.symm

/-- The identity of a list reads as a list, item for item. -/
theorem ofChars_list (items : List Value) (draw : Draws) :
    ofChars (identityChars (.list items)) draw =
      .list (items.mapIdx fun i v ↦ ofChars v.identityChars (draw.within i)) := by
  have read := ofChars_marked ['l', 'i'] (by decide) (itemsChars items) draw
  have mark : asciiLowerChars ['l', 'i'] = ['l', 'i'] := by decide
  simpa [identityChars, marked?, mark, listPieces_itemsChars, unescape_escape,
    mapIdx_map] using read

/-- The identity of a map reads as a map, entry for entry. -/
theorem ofChars_map (es : Entries Value) (draw : Draws) :
    ofChars (identityChars (.map es)) draw = .map (Entries.insertAll []
      (es.mapIdx fun i e ↦ (e.1, ofIdentity e.2.identity (draw.within i)))) := by
  have read := ofChars_marked ['m', 'a', 'p'] (by decide) (bracketed (pairTexts es)) draw
  have mark : asciiLowerChars ['m', 'a', 'p'] = ['m', 'a', 'p'] := by decide
  simpa [identityChars, marked?, mark, mapPieces?_bracketed, entriesOfPieces_escape] using read

/-- The identity of an object reads as an object of the same container, entry for entry. -/
theorem ofChars_custom {container : String} (named : container ≠ "") (es : Entries Value)
    (draw : Draws) :
    ofChars (identityChars (.custom container es)) draw = .custom container (Entries.insertAll []
      (es.mapIdx fun i e ↦ (e.1, ofIdentity e.2.identity (draw.within i)))) := by
  have read := ofChars_marked ['c', 'u', 's', 't', 'o', 'm'] (by decide)
    (escape container.toList ++ bracketed (pairTexts es)) draw
  have mark : asciiLowerChars ['c', 'u', 's', 't', 'o', 'm'] = ['c', 'u', 's', 't', 'o', 'm'] := by
    decide
  have filled := escape_ne_nil (toList_ne_nil named)
  simpa [identityChars, marked?, mark, containerPieces_escape, filled, mapPieces?_bracketed,
    entriesOfPieces_escape, unescape_escape] using read

private theorem ofChars_queue {id : String} (named : id ≠ "") (draw : Draws) :
    ofChars (identityChars (.queue id)) draw = .queue id := by
  have read := ofChars_marked ['q'] (by decide) id.toList draw
  have mark : asciiLowerChars ['q'] = ['q'] := by decide
  simpa [identityChars, marked?, mark, named] using read

private theorem ofChars_script {name : String} (named : name ≠ "") (draw : Draws) :
    ofChars (identityChars (.script name)) draw = .script name := by
  have read := ofChars_marked ['s'] (by decide) name.toList draw
  have mark : asciiLowerChars ['s'] = ['s'] := by decide
  simpa [identityChars, marked?, mark, named] using read

/-- The identity of a finite duration reads as it. -/
theorem ofChars_duration {span : Duration} (finite : span.seconds.isFinite) (draw : Draws) :
    ofChars (identityChars (.duration span)) draw = .duration span := by
  have read := ofChars_marked ['d'] (by decide)
    (Number.floatChars span.seconds ++ ['s']) draw
  have mark : asciiLowerChars ['d'] = ['d'] := by decide
  have whole : Duration.ofChars? (['d'] ++ '@' :: (Number.floatChars span.seconds ++ ['s'])) draw =
      some span := Duration.ofChars?_identityChars finite draw
  rw [marked?, mark] at read
  simp only [whole] at read
  exact read

/-- The identity of a time begins with its mark. -/
theorem exists_identityChars_time (t : Time) :
    ∃ rest, t.identityChars = ['t', 'i', 'm', 'e'] ++ '@' :: rest := by
  unfold Time.identityChars
  split
  · exact ⟨_, rfl⟩
  · exact ⟨_, rfl⟩

private theorem ofChars_time {t : Time} (reads : Time.ofChars? t.identityChars = some t)
    (draw : Draws) :
    ofChars (identityChars (.time t)) draw = .time t := by
  have mark : asciiLowerChars ['t', 'i', 'm', 'e'] = ['t', 'i', 'm', 'e'] := by decide
  obtain ⟨rest, text⟩ := exists_identityChars_time t
  have read := ofChars_marked ['t', 'i', 'm', 'e'] (by decide) rest draw
  rw [marked?, mark, ← text] at read
  simp only [reads] at read
  exact read

private theorem mapIdx_eq_self {α : Type} {f : Nat → α → α} {l : List α}
    (h : ∀ i, ∀ a ∈ l, f i a = a) :
    l.mapIdx f = l :=
  List.ext_getElem (by simp) fun i _ lt ↦ by simp [h i _ (List.getElem_mem lt)]

/-- Inserting entries that were inserted gives them back. -/
theorem insertAll_read {pairs : List (String × Value)}
    (h : ∀ e ∈ Entries.insertAll [] pairs, ∀ draw, ofIdentity e.2.identity draw = e.2)
    (draw : Draws) :
    Entries.insertAll [] ((Entries.insertAll [] pairs).mapIdx fun i e ↦
      (e.1, ofIdentity e.2.identity (draw.within i))) = Entries.insertAll [] pairs := by
  have same : ((Entries.insertAll [] pairs).mapIdx fun i e ↦
      (e.1, ofIdentity e.2.identity (draw.within i))) = Entries.insertAll [] pairs :=
    mapIdx_eq_self fun i e mem ↦ by rw [h e mem]
  have distinct : (Entries.insertAll ([] : Entries Value) pairs).Distinct :=
    Entries.Distinct.insertAll List.Pairwise.nil pairs
  rw [same, distinct.insertAll_nil]

/-- A stable value is read back, whatever is drawn. -/
theorem Stable.ofIdentity_eq {v : Value} (h : Stable v) (draw : Draws) :
    ofIdentity v.identity draw = v := by
  induction h generalizing draw with
  | element reads =>
    rw [identity, identityChars, String.ofList_toList]
    exact ofIdentity_eq_element reads draw
  | @list items _ ih =>
    rw [ofIdentity_identity_eq, ofChars_list]
    refine congrArg Value.list (mapIdx_eq_self fun i v mem ↦ ?_)
    rw [← ofIdentity_identity_eq]
    exact ih v mem _
  | map pairs _ ih => rw [ofIdentity_identity_eq, ofChars_map, insertAll_read ih]
  | duration finite => rw [ofIdentity_identity_eq, ofChars_duration finite]
  | time reads => rw [ofIdentity_identity_eq, ofChars_time reads]
  | queue named => rw [ofIdentity_identity_eq, ofChars_queue named]
  | script named => rw [ofIdentity_identity_eq, ofChars_script named]
  | custom named pairs _ ih =>
    rw [ofIdentity_identity_eq, ofChars_custom named, insertAll_read ih]

private theorem sameItems_self {items : List Value} (h : ∀ v ∈ items, same v v) :
    sameItems items items := by
  induction items with
  | nil => rw [sameItems]
  | cons v rest ih =>
    rw [sameItems, h v List.mem_cons_self, ih fun w mem ↦ h w (List.mem_cons_of_mem _ mem)]
    rfl

private theorem sameEntries_self {es : Entries Value} (h : ∀ e ∈ es, same e.2 e.2) :
    sameEntries es es := by
  induction es with
  | nil => rw [sameEntries]
  | cons e rest ih =>
    obtain ⟨key, v⟩ := e
    rw [sameEntries, h (key, v) List.mem_cons_self,
      ih fun e mem ↦ h e (List.mem_cons_of_mem _ mem)]
    simp

/-- A stable value is equal to itself: none of its durations is no number. -/
theorem Stable.same_self {v : Value} (h : Stable v) : same v v := by
  induction h with
  | list _ ih => rw [same, sameItems_self ih]
  | map pairs _ ih => rw [same, sameEntries_self ih]
  | duration finite =>
    obtain ⟨_, _, _, parts⟩ := Number.exists_isFinite finite
    rw [same, parts.beq_self]
  | custom _ pairs _ ih =>
    rw [same, sameEntries_self ih]
    simp
  | element | time | queue | script => simp [same]

/-- A stable value of any depth and size is read back from its identity, and equals itself. There is
no range in it to draw from. -/
theorem ofIdentity_identity {v : Value} (h : Stable v) (draw : Draws) :
    ofIdentity v.identity draw = v ∧ (ofIdentity v.identity draw == v) = true := by
  rw [h.ofIdentity_eq]
  exact ⟨rfl, h.same_self⟩

/-- The empty list and the empty key, separators in keys, names and texts, a replaced entry, and a
negative duration, in a list within a list. -/
theorem ofIdentity_identity_nested :
    let v : Value := .list
      [ .list [.list []],
        .map (Entries.insertAll []
          [("", .duration ⟨-0.5⟩), ("a=b;c", .element "x"), ("A=B;C", .element "[<|>]&amp")]),
        .custom "c[|" (Entries.insertAll [] [("at", .time ⟨86400000⟩), ("q", .queue "q@")]) ]
    Stable v ∧ ofIdentity v.identity = v ∧ (ofIdentity v.identity == v) = true := by
  intro v
  have plain : Stable (.element "[<|>]&amp") := .element (ofChars_plain (by decide) _)
  have day : Time.ofChars? (Time.identityChars ⟨86400000⟩) = some ⟨86400000⟩ := by
    decide +kernel
  have stable : Stable v := by
    refine .list fun w mem ↦ ?_
    simp only [List.mem_cons, List.not_mem_nil, or_false] at mem
    rcases mem with rfl | rfl | rfl
    · refine .list fun w mem ↦ ?_
      obtain rfl := List.mem_singleton.1 mem
      exact .list fun _ mem ↦ absurd mem List.not_mem_nil
    · refine .map _ fun e mem ↦ ?_
      have entries : e = ("", .duration ⟨-0.5⟩) ∨ e = ("a=b;c", .element "[<|>]&amp") := by
        simpa [Entries.insertAll, Entries.insert, Entries.sameKey, sameIgnoringCase,
          asciiLowerChars, asciiLower] using mem
      rcases entries with rfl | rfl
      · exact .duration (by decide)
      · exact plain
    · refine .custom (by decide) _ fun e mem ↦ ?_
      have entries : e = ("at", .time ⟨86400000⟩) ∨ e = ("q", .queue "q@") := by
        simpa [Entries.insertAll, Entries.insert, Entries.sameKey, sameIgnoringCase,
          asciiLowerChars, asciiLower] using mem
      rcases entries with rfl | rfl
      · exact .time day
      · exact .queue (by decide)
  exact ⟨stable, ofIdentity_identity stable .least⟩

end Value

end TextTags
