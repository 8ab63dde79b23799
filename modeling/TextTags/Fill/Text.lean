import TextTags.Fill.Report
import TextTags.Fill.Resolve

/-!
# Filling texts

Every tag of a text is replaced by the value of its chain. A text that is one tag and nothing else
gives that value itself, every other text an element. A tag without a value gives its alternative,
or stays as it was written and is reported.
-/

namespace TextTags

namespace Env

/-- Reports what a tag was filled with, in debug mode. -/
def reportFill (env : Env) (tag : Tag) (v : Value) : Run Unit :=
  if env.context.debug then Run.emit (.filled tag.raw v.debugForm) else return ()

/-- Reports failures, unless the context is silent. -/
def report (env : Env) (events : List Event) : Run Unit :=
  if env.context.showErrors then events.forM Run.emit else return ()

/-- The value of a tag, or what stands in for it. -/
def readTag (env : Env) (fill : Scope → String → Run Value) (scope : Scope) (tag : Tag) :
    Run Value := do
  match ← env.resolve fill scope tag.chain with
  | .fulfilled v _ =>
    env.reportFill tag v
    return v
  | .halted halt =>
    match tag.chain.alternative with
    | some alternative =>
      let v ← fill scope alternative
      env.reportFill tag v
      return v
    | none =>
      env.report (Report.events tag.raw halt)
      return .element ("<" ++ tag.raw ++ ">")

/-- The text that a fragment is filled with. -/
def fillFragment (env : Env) (fill : Scope → String → Run Value) (scope : Scope) :
    Fragment → Run String
  | .literal text => return text
  | .tag tag => return (← env.readTag fill scope tag).identity
  | .issue message source => do
    env.report [.error message]
    return source

/-- The text that fragments are filled with, one after another. -/
def fillFragments (env : Env) (fill : Scope → String → Run Value) (scope : Scope) :
    List Fragment → Run String
  | [] => return ""
  | fragment :: rest => do
    let first ← env.fillFragment fill scope fragment
    let others ← env.fillFragments fill scope rest
    return first ++ others

/-- Fills a text, the texts nested in it by `fill`. -/
def fillText (env : Env) (fill : Scope → String → Run Value) (scope : Scope) (text : String) :
    Run Value := do
  if text = "" then return .element ""
  else
    let shared ← Run.parse text
    match shared.parsed.single? with
    | some tag => env.readTag fill scope tag
    | none => return .element (← env.fillFragments fill scope shared.parsed.fragments)

/-- Fills a text in which texts are nested less deep than `levels`. -/
def fillWithin (env : Env) : Nat → Scope → String → Run Value
  | 0, _, _ => throw .exhausted
  | levels + 1, scope, text => env.fillText (env.fillWithin levels) scope text

/-- Fills a text, and gives the value of a text that is one tag. -/
def fillValue (env : Env) (levels : Nat) (text : String) : Run Value :=
  env.fillWithin levels {} text

/-- Fills a text. -/
def fillString (env : Env) (levels : Nat) (text : String) : Run String := do
  return (← env.fillValue levels text).identity

end Env

end TextTags
