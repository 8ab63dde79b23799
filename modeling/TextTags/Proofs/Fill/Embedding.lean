import TextTags.Proofs.Chain.Nested
import TextTags.Proofs.Fill.Literal
import TextTags.Proofs.Limit
import TextTags.Proofs.Registry
import TextTags.Proofs.Value.Stable

/-!
# Values embedded in texts

The identity of a list or a map stands in a tag as the parameter of its base. Whatever the items,
keys and values hold, none of their characters is left for the readers of texts and chains, so that
filling gives the value that the identity reads as.
-/

namespace TextTags

open Run Text

namespace Value

end Value

namespace Kind

end Kind

namespace Env

variable {env : Env} {clock : Nat}

/-- A text that no tag can end is filled with itself. -/
theorem fillWithin_plain {text : String} (plain : '>' ∉ text.toList) (levels : Nat) (s : Scope) :
    GivesAt clock (env.fillWithin (levels + 1) s text) (.element text) := by
  rw [fillWithin, fillText]
  split
  · next empty =>
    subst empty
    exact GivesAt.pure _
  · refine GivesAt.parse_bind fun shared cut ↦ ?_
    have whole : shared.parsed = ⟨[.literal text], false⟩ := by
      rw [cut, Parsed.ofText, Parsed.ofChars]
      simp [plain]
    have literal : Quiet (env.fillFragments (env.fillWithin levels) s [.literal text]) text := by
      simpa [fillFragments, fillFragment] using Quiet.pure text
    rw [whole]
    exact literal.givesAt.bind (GivesAt.pure _)

private theorem result_parse_bind {α : Type} {text : String} {f : Shared → Run α}
    {r : Except Stop α} {w : World} (faithful : w.cache.Faithful)
    (next : ∀ shared w', shared.parsed = Parsed.ofText text → w'.cache.Faithful →
      w'.clock = w.clock → (f shared).result w' = r) :
    (Run.parse text >>= f).result w = r :=
  next _ _ (Cache.parsed_getOrParse faithful text) (faithful.getOrParse text) rfl

/-- A tag of one segment, whose parameter has no angle brackets and whose square ones match, gives
what its base makes of the parameter. A base without a name is that of definitions. -/
theorem fillValue_group {base param : String} {make : Value → Handler.Attempt Value} {v : Value}
    (plain : base.toList.all Chain.isPlainChar) (opens : base.toList.head? ≠ some '-')
    (known : ∃ key returns, env.registry.base?
      (if base.toList = [] then Chain.unnamedRootKey else lower base) =
        some ⟨key, returns, Handler.ofParam make⟩)
    (angles : '<' ∉ param.toList ∧ '>' ∉ param.toList) (squares : Balanced '[' ']' param.toList)
    {w : World} (made : env.Makes w.clock (make (.element param)) v) (faithful : w.cache.Faithful)
    (levels : Nat) :
    (env.fillValue (levels + 2) ("<" ++ base ++ "[" ++ param ++ "]>")).result w =
      env.atOnce ("<" ++ base ++ "[" ++ param ++ "]>") v := by
  -- The texts get names, so that `simp` does not take them apart.
  obtain ⟨text, eq⟩ : ∃ text, text = "<" ++ base ++ "[" ++ param ++ "]>" := ⟨_, rfl⟩
  obtain ⟨inside, inner⟩ : ∃ inside, inside = base.toList ++ '[' :: (param.toList ++ [']']) :=
    ⟨_, rfl⟩
  have shape : text.toList = '<' :: inside ++ ['>'] := by
    simp [eq, inner]
  have hno : '<' ∉ inside ∧ '>' ∉ inside := by
    have mark (c : Char) (other : Chain.isPlainChar c = false) : c ∉ base.toList := by
      intro mem
      rw [List.all_eq_true.1 plain c mem] at other
      contradiction
    simp [inner, mark '<' (by decide), mark '>' (by decide), angles]
  have head : inside.head? ≠ some '-' := by
    rw [inner, List.head?_append]
    cases first : base.toList.head? with
    | none => simp
    | some c => rwa [first] at opens
  have cut : Parsed.ofText text =
      ⟨[Parsed.tagFragment inside], (Chain.parseChars inside).isOk⟩ := by
    rw [Parsed.ofText, shape]
    exact Parsed.ofChars_tag (.of_plain hno.1 hno.2) head (by simp [inner])
  have nonempty : text ≠ "" := by
    rintro rfl
    contradiction
  have whole : "<" ++ String.ofList inside ++ ">" = text := by
    apply String.toList_injective
    simp [shape]
  have single : Chain.IsSingle env.registry make param
      ⟨.ofList inside, Chain.rootSegment (Chain.segment base.toList (some param.toList)), []⟩ := by
    refine ⟨?_, ?_, rfl, Chain.fallback_rootSegment _⟩
    · rw [Chain.key_rootSegment]
      exact known
    · rw [Chain.param_rootSegment]
      exact congrArg some String.ofList_toList
  rw [← eq, fillValue, fillWithin, fillText, if_neg nonempty]
  refine result_parse_bind faithful fun shared w' parsed faithful' clock ↦ ?_
  rw [parsed, cut, Parsed.tagFragment, inner,
    Chain.parseChars_rootGroup (List.all_eq_true.1 plain) squares, ← inner]
  simp only [Parsed.single?]
  rw [readTag_single single faithful' (fillWithin_plain angles.2 levels) (clock ▸ made)]
  exact congrArg (env.atOnce · v) whole

end Env

end TextTags
