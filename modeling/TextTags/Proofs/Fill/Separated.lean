import TextTags.Proofs.Fill.Attributes
import TextTags.Proofs.Fill.Embedding
import TextTags.Proofs.Text.Separator

/-!
# Elements cut and joined again

An element that is cut at a separator and joined by it again is the element itself. What is cut off
stays text, whatever it looks like.
-/

namespace TextTags

open Run Text

private theorem Value.identityChars_ofTexts (texts : List String) :
    (texts.map Value.element).map Value.identityChars = texts.map String.toList := by
  rw [List.map_map]
  rfl

namespace Element

/-- The stretches of a text at a separator that is not empty. -/
theorem split_eq (text : String) {separator : String} {first : Char} {more : List Char}
    (chars : separator.toList = first :: more) :
    split text separator = (splitAtWord first more text.toList).map .ofList := by
  rw [split, chars]

/-- Joined by the separator at which it was cut, a text is itself again. -/
theorem separatedBy_split (text : String) {separator : String} (hne : separator ≠ "") :
    Core.separatedBy ((split text separator).map .element) separator = text := by
  obtain ⟨first, more, chars⟩ := List.exists_cons_of_ne_nil (mt String.toList_eq_nil_iff.1 hne)
  have stretches : (split text separator).map String.toList =
      splitAtWord first more text.toList := by
    rw [split_eq text chars, List.map_map]
    exact (List.map_congr_left fun _ _ ↦ String.toList_ofList).trans (List.map_id _)
  rw [Core.separatedBy, Value.identityChars_ofTexts, stretches, chars, joinWith_splitAtWord,
    String.ofList_toList]

private theorem not_infix_of_mem_split {text separator piece : String} (hne : separator ≠ "")
    (mem : piece ∈ split text separator) : ¬ separator.toList <:+: piece.toList := by
  obtain ⟨first, more, chars⟩ := List.exists_cons_of_ne_nil (mt String.toList_eq_nil_iff.1 hne)
  rw [split_eq text chars] at mem
  obtain ⟨stretch, cut, rfl⟩ := List.mem_map.1 mem
  rw [chars, String.toList_ofList]
  exact not_infix_of_mem_splitAtWord cut

private theorem length_split (text : String) {separator : String} (hne : separator ≠ "") :
    ∃ places, FoundFrom separator.toList text.toList 0 places ∧
      (split text separator).length = places.length + 1 := by
  obtain ⟨first, more, chars⟩ := List.exists_cons_of_ne_nil (mt String.toList_eq_nil_iff.1 hne)
  rw [split_eq text chars, chars, List.length_map]
  exact exists_foundFrom first more text.toList 0

end Element

namespace Frame

variable {f : Frame} {clock : Nat} {p : Progress} {s : Segment} {raw : String} {v : Value}

/-- An element is cut at the text of the parameter. -/
theorem dispatch_split (core : f.env.registry = .core) (time : f.scope.passed? clock = none)
    (present : (f.cursor p).segment? 0 = some s) (param : s.param = some raw)
    (fill : GivesAt clock (f.fill raw) v) (key : s.key = "split") (text : String) :
    GivesAt clock (f.dispatch (.element text) p)
      (.ok (.ofTexts (Element.split text v.asElement)), p) := by
  have known : Core.splitElement ∈ Core.history := by
    simp [Core.history, Core.elementAttributes]
  have there : (f.cursor p).param? 0 = some raw := by
    simp [Cursor.param?, present, param]
  have answered : GivesAt clock (f.answer p (.param 0)) (some v, p) :=
    (param_givesAt time there fill).bind (GivesAt.pure _)
  have run : GivesAt clock (f.run (Handler.ask (.param 0) fun separator ↦
      .done (some (Value.ofTexts
        (Element.split text ((separator.map Value.asElement).getD ""))))) p)
      (some (Value.ofTexts (Element.split text v.asElement)), p) :=
    answered.bind (GivesAt.pure _)
  have lower : "split" = Text.lower "split" := rfl
  exact dispatch_attribute core known present (by simp [key, ← lower]) param run

/-- The items between the occurrences of a separator, found from left to right without overlap, are
texts without the separator, one more than there are occurrences; joined by the separator they are
the element again. -/
theorem dispatch_split_separatedBy (core : f.env.registry = .core)
    (time : f.scope.passed? clock = none)
    (present : (f.cursor p).segment? 0 = some s) (param : s.param = some raw)
    (fill : GivesAt clock (f.fill raw) v) (key : s.key = "split")
    {p' : Progress} {s' : Segment} {raw' : String}
    (present' : (f.cursor p').segment? 0 = some s') (param' : s'.param = some raw')
    (fill' : GivesAt clock (f.fill raw') v) (key' : s'.key = "separated_by")
    (hne : v.identity ≠ "") (text : String) :
    ∃ (texts : List String) (places : List Nat),
      GivesAt clock (f.dispatch (.element text) p) (.ok (.ofTexts texts), p) ∧
      GivesAt clock (f.dispatch (.ofTexts texts) p') (.ok (.element text), p') ∧
      (∀ item ∈ texts, ¬ v.identity.toList <:+: item.toList) ∧
      (∀ others, FoundFrom v.identity.toList text.toList 0 others ↔ others = places) ∧
      texts.length = places.length + 1 := by
  obtain ⟨places, found, length⟩ := Element.length_split text hne
  refine ⟨Element.split text v.identity, places,
    dispatch_split core time present param fill key text, ?_,
    fun item ↦ Element.not_infix_of_mem_split hne, fun others ↦ ?_, length⟩
  · have lower : "separated_by" = Text.lower "separated_by" := rfl
    have known : Core.listWith "separated_by"
        (fun items text ↦ .some (.element (Core.separatedBy items text))) ∈
          Core.listAttributes := by
      simp [Core.listAttributes]
    refine dispatch_listWith core time present' param' fill' (key'.trans lower) known ?_
    exact congrArg (Option.some ∘ Value.element) (Element.separatedBy_split text hne)
  · exact ⟨fun other ↦ other.unique found, fun same ↦ same ▸ found⟩

/-- A frame in whose chain an element is cut at a separator and joined by it. -/
def resplitting (text separator : String) : Frame :=
  let env : Env := { registry := .core }
  { env, scope := {}, fill := env.fillWithin 1 {}
    chain := {
      origin :=
        "element[" ++ text ++ "].split[" ++ separator ++ "].separated_by[" ++ separator ++ "]"
      root := ⟨"element", "element", some text, none⟩
      rest := [⟨"split", "split", some separator, none⟩,
        ⟨"separated_by", "separated_by", some separator, none⟩] } }

/-- A separator that overlaps itself, at both ends of a text with the mark of a duration. -/
theorem dispatch_split_separatedBy_overlapping :
    let text := "aad@aaa|aa"
    let f := resplitting text "aa"
    let p : Progress := { fulfilled := 1 }
    let p' : Progress := { fulfilled := 2 }
    "aa" ≠ "" ∧ ∃ (texts : List String) (places : List Nat),
      GivesAt 0 (f.dispatch (.element text) p) (.ok (.ofTexts texts), p) ∧
      GivesAt 0 (f.dispatch (.ofTexts texts) p') (.ok (.element text), p') ∧
      (∀ item ∈ texts, ¬ "aa".toList <:+: item.toList) ∧
      (∀ others, FoundFrom "aa".toList text.toList 0 others ↔ others = places) ∧
      texts.length = places.length + 1 := by
  intro text f p p'
  have core : f.env.registry = .core := rfl
  have time : f.scope.passed? 0 = none := rfl
  have plain : '>' ∉ "aa".toList := by decide
  have fill : GivesAt 0 (f.fill "aa") (.element "aa") := f.env.fillWithin_plain plain 0 {}
  have split : (f.cursor p).segment? 0 = Option.some ⟨"split", "split", Option.some "aa", none⟩ :=
    rfl
  have join : (f.cursor p').segment? 0 =
      Option.some ⟨"separated_by", "separated_by", Option.some "aa", none⟩ := rfl
  have hne : (Value.element "aa").identity ≠ "" := by decide
  exact ⟨by decide, dispatch_split_separatedBy core time split rfl fill rfl join rfl fill rfl
    hne text⟩

end Frame

end TextTags
