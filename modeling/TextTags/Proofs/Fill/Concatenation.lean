import TextTags.Core.Registry
import TextTags.Proofs.Fill.Shift
import TextTags.Proofs.Fragment
import TextTags.Proofs.Value.Reading

/-!
# Filling texts put together

A text is filled by filling its fragments, and the short ways for texts without tags or of one tag
give nothing else. So a closed text followed by another is filled as the two are on their own.
-/

namespace TextTags

open Run Text

namespace Env

variable (env : Env) {fill fill' : Scope → String → Run Value} {k k' : Nat}

private theorem fillFragments_append (s : Scope) (xs ys : List Fragment) :
    env.fillFragments fill s (xs ++ ys) = (do
      let first ← env.fillFragments fill s xs
      let others ← env.fillFragments fill s ys
      return first ++ others) := by
  induction xs with
  | nil => simp only [List.nil_append, fillFragments, pure_bind, String.empty_append, bind_pure]
  | cons x rest ih =>
    simp only [List.cons_append, fillFragments, ih, bind_assoc, pure_bind, String.append_assoc]

private theorem fillFragments_literal (s : Scope) (cs : List Char) :
    Quiet (env.fillFragments fill s (Parsed.literal cs)) (.ofList cs) := by
  unfold Parsed.literal
  split
  · next empty =>
    obtain rfl := List.isEmpty_iff.1 empty
    exact Quiet.pure ""
  · simpa [fillFragments, fillFragment] using Quiet.pure (String.ofList cs)

private theorem fillFragment_issue (s : Scope) (message source : String) :
    Quiet (env.fillFragment fill s (.issue message source)) source :=
  (env.report_quiet _).bind (Quiet.pure source)

/-- What follows the last tag stays as it is. -/
theorem fillFragments_leftover (s : Scope) (text rest : List Char) :
    Quiet (env.fillFragments fill s (Parsed.leftover text rest)) (.ofList rest) := by
  unfold Parsed.leftover
  rw [fillFragments_append]
  have warned : Quiet (env.fillFragments fill s
      (if rest.contains '<' && !occursIn [':', '<', '-'] rest then
        [.issue (Parsed.leftoverMessage (.ofList rest) (.ofList text)) ""] else [])) "" := by
    split
    · exact (env.fillFragment_issue s _ _).bind (Quiet.pure "")
    · exact Quiet.pure ""
  refine warned.bind ((env.fillFragments_literal s rest).bind ?_)
  simpa using Quiet.pure (String.ofList rest)

/-- Worlds stay shifted when events are added. -/
theorem shifted_silent (w w' : World) (t t' : List Event) (h : World.Shifted k k' w w') :
    World.Shifted k k' { w with trace := t } { w' with trace := t' } :=
  ⟨h.faithful, h.faithful', h.clock⟩

/-- The literal before a tag is put before what the rest is filled with. -/
theorem fillFragments_tag (s : Scope) {rest before inside after : List Char}
    (h : Tag.find? rest = some (before, inside, after)) (text : List Char) :
    env.fillFragments fill s (Parsed.fragmentsOf text rest) = (do
      let first ← env.fillFragments fill s (Parsed.literal before)
      let tag ← env.fillFragment fill s (Parsed.tagFragment inside)
      let others ← env.fillFragments fill s (Parsed.fragmentsOf text after)
      return first ++ (tag ++ others)) := by
  rw [Parsed.fragmentsOf_some h, fillFragments_append]
  simp only [fillFragments, bind_assoc, pure_bind]

/-- The reports of a text name it, but what it is filled with does not depend on the name. -/
theorem fillFragments_renamed (h : FillsShifted k k' fill fill') {s s' : Scope}
    (scopes : Scope.Shifted k k' s s') (text text' rest : List Char) :
    Alike (World.Shifted k k') Eq (env.fillFragments fill s (Parsed.fragmentsOf text rest))
      (env.fillFragments fill' s' (Parsed.fragmentsOf text' rest)) := by
  fun_induction Tag.outside rest with
  | case1 rest hno =>
    rw [Parsed.fragmentsOf_none hno, Parsed.fragmentsOf_none hno]
    exact (env.fillFragments_leftover s text rest).alike (env.fillFragments_leftover s' text' rest)
      rfl shifted_silent
  | case2 rest before inside after hne ih =>
    rw [env.fillFragments_tag s hne, env.fillFragments_tag s' hne]
    refine (env.fillFragments_shifted h scopes _).bind_eq fun first ↦ ?_
    refine (env.fillFragment_shifted h scopes _).bind_eq fun tag ↦ ?_
    exact ih.bind_eq fun others ↦ Alike.pure rfl

/-- The fragments of a closed text followed by another give what the two give. -/
theorem fillFragments_closed (h : FillsShifted k k' fill fill') {s s' : Scope}
    (scopes : Scope.Shifted k k' s s') (text text₁ text₂ : List Char) {a : List Char}
    (closed : Tag.Closed a) (b : List Char) :
    Alike (World.Shifted k k') Eq (env.fillFragments fill s (Parsed.fragmentsOf text (a ++ b)))
      (do
        let first ← env.fillFragments fill' s' (Parsed.fragmentsOf text₁ a)
        let others ← env.fillFragments fill' s' (Parsed.fragmentsOf text₂ b)
        return first ++ others) := by
  -- By the tags of the first text. Once there are none left in it, what is left of it is dashed and
  -- comes before the first tag of the other text.
  fun_induction Tag.outside a with
  | case1 a hno =>
    have dashed : Tag.dashed a := by
      rw [Tag.Closed, Tag.outside_of_none hno] at closed
      exact closed
    have found := Tag.find?_append_of_dashed dashed b
    rw [Parsed.fragmentsOf_none hno]
    have first : Quiet (env.fillFragments fill' s' (Parsed.leftover text₁ a)) (.ofList a) :=
      env.fillFragments_leftover s' text₁ a
    refine first.alike_right (fun w w' t ↦ shifted_silent w w' w.trace t) ?_
    cases other : Tag.find? b with
    | none =>
      rw [other, Option.map_none] at found
      rw [Parsed.fragmentsOf_none found, Parsed.fragmentsOf_none other]
      refine (env.fillFragments_leftover s text (a ++ b)).alike
        ((env.fillFragments_leftover s' text₂ b).bind (Quiet.pure _)) ?_ shifted_silent
      exact String.ofList_append
    | some parts =>
      obtain ⟨before, inside, after⟩ := parts
      rw [other, Option.map_some] at found
      rw [env.fillFragments_tag s found, env.fillFragments_tag s' other]
      simp only [bind_assoc, pure_bind]
      refine (env.fillFragments_literal s (a ++ before)).alike_left
        (fun w w' t ↦ shifted_silent w w' t w'.trace) ?_
      refine (env.fillFragments_literal s' before).alike_right
        (fun w w' t ↦ shifted_silent w w' w.trace t) ?_
      refine (env.fillFragment_shifted h scopes _).bind_eq fun tag ↦ ?_
      refine (env.fillFragments_renamed h scopes text text₂ after).bind_eq fun others ↦ ?_
      exact Alike.pure (by rw [String.ofList_append, String.append_assoc])
  | case2 a before inside after hne ih =>
    have rest := ih (closed.after hne)
    rw [env.fillFragments_tag s (Tag.find?_append_of_some hne b), env.fillFragments_tag s' hne]
    simp only [bind_assoc, pure_bind]
    refine (env.fillFragments_shifted h scopes _).bind_eq fun first ↦ ?_
    refine (env.fillFragment_shifted h scopes _).bind_eq fun tag ↦ ?_
    have put := rest.bind_eq (W := Eq) (f := fun others ↦ pure (first ++ (tag ++ others)))
      (g := fun others ↦ pure (first ++ (tag ++ others))) fun others ↦ Alike.pure rfl
    simpa only [bind_assoc, pure_bind, String.append_assoc] using put

/-- A text without a tag in it is filled with itself. -/
theorem fillFragments_whole (s : Scope) {cs : List Char}
    (h : Tag.find? cs = none ∨ cs = ['<', '>']) (text : List Char) :
    Quiet (env.fillFragments fill s (Parsed.fragmentsOf text cs)) (.ofList cs) := by
  rcases h with hno | rfl
  · rw [Parsed.fragmentsOf_none hno]
    exact env.fillFragments_leftover s text cs
  · have found : Tag.find? ['<', '>'] = some ([], [], []) := rfl
    rw [env.fillFragments_tag s found]
    apply (env.fillFragments_literal s []).bind
    apply (env.fillFragment_issue s _ _).bind
    rw [Parsed.fragmentsOf_none rfl]
    exact (env.fillFragments_leftover s text []).bind (Quiet.pure _)

/-- However a text is filled, its fragments would give the same text. -/
theorem fillText_fragments (h : FillsShifted k k' fill fill') {s s' : Scope}
    (scopes : Scope.Shifted k k' s s') (text : String) :
    Alike (World.Shifted k k') (fun v filled ↦ v.identity = filled) (env.fillText fill s text)
      (env.fillFragments fill' s' (Parsed.fragmentsOf text.toList text.toList)) := by
  unfold fillText
  split
  · next empty =>
    subst empty
    have whole : Quiet (env.fillFragments fill' s' (Parsed.fragmentsOf [] [])) "" :=
      env.fillFragments_whole s' (.inl rfl) []
    exact (Quiet.pure (Value.element "")).alike whole (Value.identity_element "") shifted_silent
  · refine alike_parse_left fun shared cut ↦ ?_
    rw [cut, Parsed.ofText]
    rcases Parsed.ofChars_cases text.toList with eq | ⟨eq, whole⟩
    · rw [eq]
      split
      · next tag single =>
        have only : Parsed.fragmentsOf text.toList text.toList = [.tag tag] := by
          unfold Parsed.single? at single
          split at single
          · next fragments =>
            obtain rfl := Option.some.inj single
            exact fragments
          · contradiction
        rw [only]
        simp only [fillFragments, fillFragment, bind_assoc, pure_bind, String.append_empty]
        exact (env.readTag_shifted h scopes tag).map_right fun v _ same ↦ same ▸ rfl
      · exact (env.fillFragments_shifted h scopes _).map_left fun filled _ same ↦
          (Value.identity_element filled).trans same
    · rw [eq]
      have alone : (Parsed.mk [.literal (.ofList text.toList)] false).single? = none := rfl
      rw [alone]
      have literal : Quiet (env.fillFragments fill s [.literal (.ofList text.toList)])
          (.ofList text.toList) := by
        simpa [fillFragments, fillFragment] using Quiet.pure (String.ofList text.toList)
      have first : Quiet (do return Value.element (← env.fillFragments fill s
          [.literal (.ofList text.toList)])) (.element (.ofList text.toList)) :=
        literal.bind (Quiet.pure _)
      exact first.alike (env.fillFragments_whole s' whole _)
        (Value.identity_element _) shifted_silent

/-- The fragments that a text is cut into, filled one after another. -/
def fillPieces (levels : Nat) (text : String) : Run String :=
  env.fillFragments (env.fillWithin levels) {} (Parsed.fragmentsOf text.toList text.toList)

private theorem fillPieces_steady (levels : Nat) (text : String) :
    Steady (env.fillPieces levels text) :=
  fun _ _ ↦ env.fillFragments_shifted (env.fillWithin_shifted levels) ⟨rfl, trivial⟩ _

private theorem fillString_eq (levels : Nat) (text : String) {w w' : World}
    (start : w.cache.Faithful) (start' : w'.cache.Faithful) :
    (env.fillString (levels + 1) text).result w = (env.fillPieces levels text).result w' := by
  have pieces : Alike (World.Shifted w'.clock w.clock) (fun v filled ↦ v.identity = filled)
      (env.fillValue (levels + 1) text) (env.fillPieces levels text) :=
    env.fillText_fragments (env.fillWithin_shifted levels) ⟨rfl, trivial⟩ text
  have strings : Alike (World.Shifted w'.clock w.clock) Eq (env.fillString (levels + 1) text)
      (env.fillPieces levels text) := pieces.map_left fun v filled same ↦ same
  exact strings.result_eq (shifted_of_faithful start start')

/-- A closed text followed by another is filled as the two are on their own, each from whatever
world: the values of tags, tags that fail and what looks like a tag are the same, and so is a
breakdown. -/
theorem fillString_append (levels : Nat) {a : String} (closed : Tag.Closed a.toList) (b : String)
    {w w₁ w₂ : World} (start : w.cache.Faithful) (start₁ : w₁.cache.Faithful)
    (start₂ : w₂.cache.Faithful) :
    (env.fillString levels (a ++ b)).result w = (do
      let first ← (env.fillString levels a).result w₁
      let others ← (env.fillString levels b).result w₂
      return first ++ others) := by
  cases levels with
  | zero => rfl
  | succ levels =>
    have cut : Alike (World.Shifted w.clock w.clock) Eq (env.fillPieces levels (a ++ b)) (do
        let first ← env.fillPieces levels a
        let others ← env.fillPieces levels b
        return first ++ others) := by
      unfold fillPieces
      rw [String.toList_append]
      exact env.fillFragments_closed (env.fillWithin_shifted levels) ⟨rfl, trivial⟩ _ _ _ closed _
    have second (first : String) : Steady (do return first ++ (← env.fillPieces levels b)) :=
      fun k k' ↦ (env.fillPieces_steady levels b k k').bind_eq fun others ↦ Alike.pure rfl
    rw [env.fillString_eq levels (a ++ b) start start, env.fillString_eq levels a start₁ start₁,
      env.fillString_eq levels b start₂ start₂, cut.result_eq (shifted_of_faithful start start)]
    rw [(env.fillPieces_steady levels a).result_bind second start start₁ start₂]
    congr 1
    funext first
    exact (env.fillPieces_steady levels b).result_bind (fun others _ _ ↦ Alike.pure rfl) start₂
      start₂ start₂

/-- A bracket before a dash, a tag at the seam, a tag without a base, and a bracket that closes
nothing. -/
theorem fillString_append_dash :
    let env : Env := { registry := .core }
    let a := "1 <- 2 <nope[<element[x]>]><element[y]>"
    let b := "-<element[z]> >"
    Tag.Closed a.toList ∧
      (env.fillString 3 (a ++ b)).result {} = (do
        let first ← (env.fillString 3 a).result {}
        let others ← (env.fillString 3 b).result {}
        return first ++ others) := by
  intro env a b
  have first : Tag.find? a.toList = some ("1 <- 2 ".toList, "nope[<element[x]>]".toList,
      "<element[y]>".toList) := by decide
  have second : Tag.find? "<element[y]>".toList = some ([], "element[y]".toList, []) := by decide
  have last : Tag.find? [] = none := rfl
  have closed : Tag.Closed a.toList := by
    rw [Tag.Closed, Tag.outside_of_some first, Tag.outside_of_some second, Tag.outside_of_none last]
    decide
  have faithful : ({} : World).cache.Faithful := Cache.faithful_empty
  exact ⟨closed, env.fillString_append 3 closed b faithful faithful faithful⟩

end Env

end TextTags
