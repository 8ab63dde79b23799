import TextTags.Proofs.Chain.Nested
import TextTags.Proofs.Fill.InTime
import TextTags.Proofs.Limit
import TextTags.Proofs.Registry.Tables
import TextTags.Proofs.Value.Reading

/-!
# Texts in tags of their own

A text whose brackets match can be put into a tag that gives its parameter as an element. Nothing of
it is left for the readers of tags and chains, and where it is filled, one resolution deeper, does
not matter, so that the tag comes to what the text comes to.
-/

namespace TextTags

open Run Text

namespace Frame

variable {f : Frame} {raw : String} {v : Value}

/-- The chain of an element is fulfilled by what its parameter is filled with. -/
theorem runChain_element (core : f.env.registry = .core) (key : f.chain.root.key = "element")
    (param : f.chain.root.param = some raw) (single : f.chain.rest = [])
    (free : f.scope.token = none)
    (fill : Alike (World.BothTimely {}) Eq (f.fill raw) (pure v)) :
    Alike (World.BothTimely {}) Eq f.runChain (pure (.fulfilled (.element v.asElement) 1)) := by
  have first : (f.cursor {}).param? 0 = some raw := by
    simp [cursor, Cursor.param?, Cursor.segment?, Chain.segments, param]
  have length : f.chain.length = 1 := by simp [Chain.length, Chain.segments, single]
  have passed : Alike (World.BothTimely {}) Eq f.passed? (pure none) := by
    refine .get_left fun w ↦ ?_
    rw [Scope.passed?, free]
    exact .pure rfl
  have filled : Alike (World.BothTimely {}) Eq (f.param {} 0) (pure (some v)) := by
    refine .bind_left passed ?_
    rw [first]
    exact .bind_left fill (.pure rfl)
  have ran : Alike (World.BothTimely {}) Eq
      (f.run (do return .element (← Handler.Attempt.paramText 0) : Handler.Attempt Value) {})
      (pure (some (.element v.asElement), {})) :=
    .bind_left (.bind_left filled (.pure rfl)) (.pure rfl)
  have called : Alike (World.BothTimely {}) Eq
      (f.call (.base "element")
        (do return .element (← Handler.Attempt.paramText 0) : Handler.Attempt Value) {})
      (pure (some (.element v.asElement), {})) :=
    .bind_left (timely_emit_left _) <| .bind_left ran <| .bind_left passed <|
      .bind_left (timely_emit_left _) (.pure rfl)
  unfold runChain
  dsimp only
  rw [core, key, Registry.base?_core_element, length]
  refine .bind_left called (.bind_left passed ?_)
  simp only [walk, length, Progress.advance, Progress.fulfill]
  exact .pure rfl

end Frame

namespace Parsed

/-- A text in a tag of an element is cut into this tag, and read as one segment with the text as its
parameter. -/
theorem ofText_element {e : String} (angles : Balanced '<' '>' e.toList)
    (squares : Balanced '[' ']' e.toList) : ∃ tag : Tag,
      (ofText ("<element[" ++ e ++ "]>")).single? = some tag ∧ tag.chain.root.key = "element" ∧
        tag.chain.root.param = some e ∧ tag.chain.rest = [] ∧ tag.chain.alternative = none := by
  let inside := "element".toList ++ '[' :: (e.toList ++ [']'])
  have shape : ("<element[" ++ e ++ "]>").toList = '<' :: inside ++ ['>'] := by
    simp [inside]
  have matched : Balanced '<' '>' inside := by
    have opening : Balanced '<' '>' ("element".toList ++ ['[']) := .of_plain (by decide) (by decide)
    have closing : Balanced '<' '>' [']'] := .of_plain (by decide) (by decide)
    simpa [inside] using (opening.append angles).append closing
  have named : "element".toList ≠ [] := by decide
  have head : inside.head? ≠ some '-' := by
    rw [List.head?_append_of_ne_nil _ named]
    decide
  have plain : "element".toList.all Chain.isPlainChar := by decide
  have read := Chain.parseChars_group named (List.all_eq_true.1 plain) squares
  have cut : ofText ("<element[" ++ e ++ "]>") =
      ⟨[tagFragment inside], (Chain.parseChars inside).isOk⟩ := by
    rw [ofText, shape]
    exact ofChars_tag matched head (List.append_ne_nil_of_left_ne_nil named _)
  have key : String.ofList (lowerChars "element".toList) = "element" := by decide
  rw [cut, tagFragment, read]
  refine ⟨_, rfl, key, ?_, rfl, rfl⟩
  simp [Chain.segment]

end Parsed

namespace Env

variable {env : Env} {levels : Nat} {e : String} {v : Value}

/-- Where no job begins, a text in a tag of an element comes to the text that comes of it. -/
theorem fillWithin_element (core : env.registry = .core)
    (limit : env.context.timeLimit ≠ .unrepresentable) (inline : env.jobLimit? {} = none)
    (angles : Balanced '<' '>' e.toList) (squares : Balanced '[' ']' e.toList)
    (inner : Alike (World.BothTimely {}) Eq (env.fillWithin levels ⟨1, none⟩ e) (pure v)) :
    Alike (World.BothTimely {}) Eq (env.fillWithin (levels + 1) {} ("<element[" ++ e ++ "]>"))
      (pure (.element v.asElement)) := by
  obtain ⟨tag, single, key, param, rest, final⟩ := Parsed.ofText_element angles squares
  have hne : "<element[" ++ e ++ "]>" ≠ "" := by
    intro empty
    have hno := congrArg String.toList empty
    simp at hno
  have resolved : Alike (World.BothTimely {}) Eq (env.resolve (env.fillWithin levels) {} tag.chain)
      (pure (.fulfilled (.element v.asElement) 1)) := by
    let f : Frame := ⟨env, ⟨1, none⟩, env.fillWithin levels ⟨1, none⟩, tag.chain⟩
    have ran := Frame.runChain_element (f := f) core key param rest rfl inner
    rw [resolve, resolveTimed_eq limit, inline]
    refine .get_left fun w ↦ .bind_left (timely_emit_left _) <| .bind_left (ran.contain _) ?_
    exact .get_left fun w' ↦ .bind_left (timely_emit_left _) (.pure rfl)
  rw [fillWithin, fillText, if_neg hne]
  refine timely_parse_left fun shared parsed ↦ ?_
  rw [parsed, single]
  refine .bind_left resolved (Quiet.alike_left (env.reportFill_quiet tag _) ?_ (.pure rfl))
  exact fun _ _ _ worlds ↦ worlds

/-- With the core, and with a time limit that can be represented and does not run out, a text whose
brackets match comes to one and the same text whether or not it stands in a tag of an element,
whatever tags, alternatives, bars, dots and dashes it holds, and whether or not its tags have
values. -/
theorem fillString_element (core : env.registry = .core)
    (limit : env.context.timeLimit ≠ .unrepresentable) (angles : Matches '<' '>' e.toList)
    (squares : Matches '[' ']' e.toList) {levels levels' : Nat}
    (enough : ("<element[" ++ e ++ "]>").length < levels) (enough' : e.length < levels')
    {w w' : World} (faithful : w.cache.Faithful) (faithful' : w'.cache.Faithful)
    (inTime : env.InTime levels ("<element[" ++ e ++ "]>") w) (inTime' : env.InTime levels' e w') :
    ∃ text, (env.fillString levels ("<element[" ++ e ++ "]>")).result w = .ok text ∧
      (env.fillString levels' e).result w' = .ok text := by
  obtain ⟨n, rfl⟩ : ∃ n, levels = n + 1 := Nat.exists_eq_add_one.2 (Nat.zero_lt_of_lt enough)
  have inner : e.length < n := by
    have marks : "<element[".length = 9 ∧ "]>".length = 2 := ⟨rfl, rfl⟩
    simp only [String.length_append] at enough
    omega
  have start : ({} : Scope).passed? w'.clock = none := rfl
  -- In time, it does not matter whether a resolution is a job. Without jobs the text is filled
  -- alike at any depth and with any allowance of levels.
  let inline := env.boxing false
  have representable : inline.context.timeLimit ≠ .unrepresentable := limit
  obtain ⟨v, u, filled, -⟩ :=
    fillWithin_ok representable (core ▸ Registry.core_fillsNothing) inner faithful' {}
  have token : ({} : Scope).token = Scope.token ⟨1, none⟩ := rfl
  have deeper : Alike (World.BothTimely {}) Eq (inline.fillWithin n ⟨1, none⟩ e)
      (inline.fillWithin n {} e) :=
    fillWithin_akin (.refl inline) (core ▸ Registry.core_discreet) n token
      (env.jobLimit?_boxing_false _) (env.jobLimit?_boxing_false _) e
  have wrapped : Alike (World.BothTimely {}) Eq
      (inline.fillValue (n + 1) ("<element[" ++ e ++ "]>")) (pure (.element v.asElement)) :=
    fillWithin_element core limit (env.jobLimit?_boxing_false _) (angles.balanced (by decide))
      (squares.balanced (by decide)) (timely_of_ok deeper ⟨faithful', start⟩ filled)
  have registry : inline.registry = .core := core
  have agree : inline.fillWithin levels' {} e w' = inline.fillWithin n {} e w' :=
    (fillWithin_agree registry World.kept_faithful (fun _ _ _ _ ↦ trivial) trivial enough' inner {}
      faithful').1
  refine ⟨v.identity, ?_, ?_⟩
  · have value := (inTime.result_eq core enough faithful).trans
      (wrapped.result_eq ⟨⟨faithful, rfl⟩, ⟨faithful', start⟩⟩)
    obtain ⟨_, ends⟩ := eq_ok_of_result value
    rw [fillString, result_bind_of_ok ends, Value.identity_element]
    rfl
  · have value := (inTime'.result_eq core enough' faithful').trans
      (result_of_ok (agree.trans filled))
    obtain ⟨_, ends⟩ := eq_ok_of_result value
    rw [fillString, result_bind_of_ok ends]
    rfl

/-- Failing tags, one of them with an alternative, bars, a dot and an arrow, under a time limit. -/
theorem fillString_element_mixed :
    let env : Env := { registry := .core, context := { timeBoxWhenSilent := true } }
    let e := "<none> a||b.c <-<none||<element[d]>>>"
    Matches '<' '>' e.toList ∧ Matches '[' ']' e.toList ∧
      (env.fillString 49 ("<element[" ++ e ++ "]>")).result {} = .ok "<none> a||b.c <-d>" ∧
      (env.fillString 49 e).result {} = .ok "<none> a||b.c <-d>" := by
  rw [Registry.core_eq_tables]
  intro env e
  have limits : env.context.timeLimit = .within ⟨10 ^ 10⟩ := TimeLimit.ofSeconds_default
  have angles : Matches '<' '>' e.toList := by decide +kernel
  have squares : Matches '[' ']' e.toList := by decide +kernel
  have early : ∀ text ∈ ["<element[" ++ e ++ "]>", e],
      ∀ e ∈ (env.fillValue 49 text).adds {}, e.isPunctual ⟨10 ^ 10⟩ := by decide +kernel
  have inTime (text : String) (mem : text ∈ ["<element[" ++ e ++ "]>", e]) :
      env.InTime 49 text {} := .of_punctual limits (early text mem)
  have filled : (env.fillString 49 e).result {} = .ok "<none> a||b.c <-d>" := by decide +kernel
  have limit : env.context.timeLimit ≠ .unrepresentable := by
    rw [limits]
    decide
  have core : env.registry = .core := Registry.core_eq_tables.symm
  obtain ⟨text, wrapped, bare⟩ := fillString_element core limit angles squares
    (by decide +kernel) (by decide +kernel) Cache.faithful_empty Cache.faithful_empty
    (inTime _ (by simp)) (inTime _ (by simp))
  rw [filled] at bare
  exact ⟨angles, squares, wrapped.trans bare.symm, filled⟩

/-- A time limit that is too large to be represented breaks down where the tag around a text is
resolved, though the text has none. -/
theorem fillString_element_pastBounds :
    ¬ ∀ (env : Env) (e : String) (levels : Nat) (w : World), env.registry = .core →
      Matches '<' '>' e.toList → Matches '[' ']' e.toList →
      ("<element[" ++ e ++ "]>").length < levels → w.cache.Faithful →
      env.InTime levels ("<element[" ++ e ++ "]>") w → env.InTime levels e w →
      (env.fillString levels ("<element[" ++ e ++ "]>")).result w =
        (env.fillString levels e).result w := by
  intro claim
  let env : Env := { registry := .tables Core.history, context := { timeout := 1e300 } }
  have limits : env.context.timeLimit = .unrepresentable := by decide +kernel
  have inTime (text : String) : env.InTime 13 text {} := by
    intro limit within
    rw [limits] at within
    contradiction
  have same := claim env "a" 13 {} Registry.core_eq_tables.symm (by decide +kernel)
    (by decide +kernel) (by decide +kernel) Cache.faithful_empty (inTime _) (inTime _)
  have bare : (env.fillString 13 "a").result {} = .ok "a" := by decide +kernel
  have wrapped : ((env.fillString 13 "<element[a]>").result {}).isOk = false := by decide +kernel
  have ends : ((env.fillString 13 ("<element[" ++ "a" ++ "]>")).result {}).isOk := by
    rw [same, bare]
    rfl
  exact Bool.false_ne_true (wrapped.symm.trans ends)

end Env

end TextTags
