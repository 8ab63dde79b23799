import TextTags.Fill.World
import TextTags.Registry.Basic

/-!
# Resolving chains

The root segment names a base, which gives a value; each further segment is applied to the value
before it. A segment is looked up among the attributes of the value's kind, then given to the kind's
fallback, then looked up among the attributes of all kinds, and last among those of elements, which
take the value's identity. The first segment that nothing can handle halts the chain.
-/

namespace TextTags

/-- All that is fixed while a text is filled. -/
structure Env where
  registry : Registry
  host : Host := {}
  context : Context := {}

/-- All that is fixed while a chain is resolved. `fill` fills texts nested in the chain. -/
structure Frame where
  env : Env
  scope : Scope
  fill : String → Run Value
  chain : Chain

/-- The message of the breakdown at a number that is too large. -/
def overflowFault : String := "attempt to add with overflow"

namespace Frame

variable {α : Type}

/-- The limit that has passed, if one has. -/
def passed? (f : Frame) : Run (Option Limit) := do
  return f.scope.passed? (← get).clock

/-- What a handler sees. -/
def cursor (f : Frame) (p : Progress) : Cursor := { p with chain := f.chain }

/-- Goes on with a place so far ahead, or breaks down where its number cannot be formed. -/
def counting (f : Frame) (p : Progress) (ahead : Nat) (run : Run α) : Run α :=
  if p.canCount ahead f.chain.length then run else throw (.fault overflowFault)

/-- The filled parameter at a place; none once time has run out. -/
def param (f : Frame) (p : Progress) (offset : Nat) : Run (Option Value) := do
  match ← f.passed? with
  | some _ => return none
  | none =>
    f.counting p offset do
      match (f.cursor p).param? offset with
      | none => return none
      | some raw => return some (← f.fill raw)

/-- The answer of the host, with the question in the trace. -/
def askHost (f : Frame) (l : Lookup) : Run l.Answer := do
  Run.emit (.asked l)
  return f.env.host.answer l

/-- Moves the clock to the end of the time limit, if there is one. -/
def awaitCancel (f : Frame) : Run Unit := do
  match f.scope.token with
  | some token => modify fun w => { w with clock := max w.clock token.deadline }
  | none => return ()

/-- The answer to a query, and the progress after it. -/
def answer (f : Frame) (p : Progress) : (q : Query) → Run (q.Answer × Progress)
  | .cursor => return (f.cursor p, p)
  | .fulfill count => f.counting p count do return ((), p.fulfill count f.chain.length)
  | .seem name => return ((), p.seem name)
  | .lackParam => return ((), { p with lacksParam := true })
  | .param offset => return (← f.param p offset, p)
  | .fill text => return (← f.fill text, p)
  | .host lookup => return (← f.askHost lookup, p)
  | .context => return (f.env.context, p)
  | .depth => return (f.scope.depth, p)
  | .cancelled => return ((← f.passed?).isSome, p)
  | .elapse nanos => return (← modify fun w => { w with clock := w.clock + nanos }, p)
  | .awaitCancel => return (← f.awaitCancel, p)
  | .note => return (← Run.emit (.noted (f.cursor p) (← f.passed?).isSome), p)

/-- Runs a handler from a progress. -/
def run (f : Frame) : Handler α → Progress → Run (α × Progress)
  | .done a, p => return (a, p)
  | .fault message, _ => throw (.fault message)
  | .ask query next, p => do
    let (a, p) ← f.answer p query
    f.run (next a) p

/-- Runs a handler from a progress, with its call and its return in the trace. -/
def call (f : Frame) (callee : Callee) (h : Handler (Option Value)) (p : Progress) :
    Run (Option Value × Progress) := do
  Run.emit (.called callee)
  let result ← f.run h p
  Run.emit (.returned callee f.scope.depth result.1.isSome (← f.passed?).isSome)
  return result

/-- Applies a named attribute to a value. The halt names the kind of the value that the chain had,
which is another than the value's own where an element attribute is applied to an identity. -/
def apply (f : Frame) (callee : Callee) (attr : Attr) (v : Value) (kind : Kind) (p : Progress) :
    Run (Except Halt Value × Progress) := do
  if attr.arity = .required ∧ !(f.cursor p).hasParam 0 then
    let p := { p with lacksParam := true }.seem attr.name
    return (.error (p.halt f.chain (.argumentRequired attr.name) []), p)
  else
    let (result, p) ← f.call callee (attr.handler v) p
    match result with
    | some next => return (.ok next, p)
    | none =>
      let p := p.seem attr.name
      let near := f.env.registry.near kind attr.name ((f.cursor p).hasParam 0)
      let failure := Failure.unresolvedAttribute attr.name kind p.fulfilled
      return (.error (p.halt f.chain failure (near.filter (· != attr.name))), p)

/-- Gives a segment that the value's kind does not know by name to the kind's fallback. -/
def tryFallback (f : Frame) (v : Value) (p : Progress) : Run (Option Value × Progress) := do
  match f.env.registry.fallback? v.kind with
  | some handler => f.call (.fallback v.kind) (handler v) p
  | none => return (none, p)

/-- The attributes that remain after the kind's own and its fallback. -/
def applyShared (f : Frame) (v : Value) (s : Segment) (p : Progress) :
    Run (Except Halt Value × Progress) := do
  match f.env.registry.universal? s.key with
  | some attr => f.apply (.universal attr.name) attr v v.kind p
  | none =>
    match if v.kind = .element then none else f.env.registry.attribute? .element s.key with
    | some attr => f.apply (.attr .element attr.name) attr (.element v.asElement) v.kind p
    | none =>
      let near := f.env.registry.near v.kind s.key s.param.isSome
      let name := (((f.cursor p).segment? 0).map (·.rawKey)).getD ""
      let failure := Failure.unresolvedAttribute name v.kind p.fulfilled
      return (.error (p.halt f.chain failure near), p)

/-- Applies the present segment to a value. -/
def dispatch (f : Frame) (v : Value) (p : Progress) : Run (Except Halt Value × Progress) := do
  match (f.cursor p).segment? 0 with
  | none => return (.ok v, p)
  | some s =>
    match f.env.registry.attribute? v.kind s.key with
    | some attr => f.apply (.attr v.kind attr.name) attr v v.kind p
    | none =>
      let (result, p) ← f.tryFallback v p
      match result with
      | some next => return (.ok next, p)
      | none => f.applyShared v s p

/-- Applies the segments that remain, one after another. `steps` bounds their number. -/
def walk (f : Frame) : Nat → Value → Progress → Run Outcome
  | 0, v, p => return .fulfilled v p.fulfilled
  | steps + 1, v, p => do
    if f.chain.length ≤ p.fulfilled then return .fulfilled v p.fulfilled
    else
      match ← f.passed? with
      | some limit => return .halted (p.halt f.chain (.timeout limit) [])
      | none =>
        let (result, p) ← f.dispatch v p
        match result with
        | .error halt => return .halted halt
        | .ok next =>
          match ← f.passed? with
          | some limit => return .halted (p.halt f.chain (.timeout limit) [])
          | none => f.walk steps next (p.advance next f.chain.length)

/-- Resolves the chain from its root. -/
def runChain (f : Frame) : Run Outcome := do
  let key := f.chain.root.key
  match f.env.registry.base? key with
  | none => return .halted (Halt.atRoot f.chain (.unresolvedBase key false))
  | some base =>
    let (result, p) ← f.call (.base base.name) base.handler {}
    match ← f.passed? with
    | some limit => return .halted (p.halt f.chain (.timeout limit) [])
    | none =>
      match result with
      | none => return .halted (p.halt f.chain (.unresolvedBase key true) [])
      | some v => f.walk f.chain.length v (p.advance v f.chain.length)

end Frame

/-- The message of the breakdown at a time limit that is too large. -/
def timeLimitFault : String :=
  "cannot convert float seconds to Duration: value is either too big or NaN"

namespace Env

/-- Resolves a chain where the caller stands. A breakdown halts it at its root. -/
def resolveInline (env : Env) (fill : Scope → String → Run Value) (scope : Scope) (chain : Chain) :
    Run Outcome :=
  let inner := scope.deeper
  Run.contain (Frame.runChain ⟨env, inner, fill inner, chain⟩) fun message =>
    .halted (Halt.atRoot chain (.workerFault message))

/-- Resolves a chain as a job under a time limit. Once the limit has passed, nothing that the job
gives is used. -/
def resolveGuarded (env : Env) (fill : Scope → String → Run Value) (limit : Limit) (chain : Chain) :
    Run Outcome := do
  let scope := Scope.ofJob limit (← get).clock
  Run.emit .before
  let outcome ← env.resolveInline fill scope chain
  Run.emit .after
  match scope.passed? (← get).clock with
  | some limit => return .halted (Halt.atRoot chain (.timeout limit))
  | none => return outcome

/-- Resolves a chain, under the time limit where the host asks for it and no other resolution is
under way. -/
def resolveTimed (env : Env) (fill : Scope → String → Run Value) (scope : Scope) (chain : Chain) :
    Run Outcome :=
  match env.context.timeLimit with
  | .unrepresentable => throw (.fault timeLimitFault)
  | .unlimited => env.resolveInline fill scope chain
  | .within limit =>
    if scope.depth = 0 ∧ env.host.timeBoxes env.context then env.resolveGuarded fill limit chain
    else env.resolveInline fill scope chain

/-- Resolves a chain, with its beginning and its end in the trace. -/
def resolve (env : Env) (fill : Scope → String → Run Value) (scope : Scope) (chain : Chain) :
    Run Outcome :=
  Run.marked scope.depth (env.resolveTimed fill scope chain)

end Env

end TextTags
