import TextTags.Proofs.Fill.Calls

/-!
# Filling on threads

A thread keeps for itself how many resolutions are under way on it, and the token of the job that it
runs. Both are set where a resolution or a job begins and put back where it ends, in a breakdown as
well. Filling that reads them from the thread comes to what filling with a scope at hand comes to,
and leaves the threads as it has found them.
-/

namespace TextTags

/-- The world, and what two threads keep: the one at work and the one that jobs are given to. -/
structure Threads where
  world : World
  own : Scope
  other : Scope

/-- A computation on threads that may break down. -/
abbrev Threaded := EStateM Stop Threads

namespace Threaded

variable {α β : Type}

/-- A run that looks at what the thread at work keeps. -/
def here (x : Scope → Run α) : Threaded α := fun t ↦
  match x t.own t.world with
  | .ok a w => .ok a { t with world := w }
  | .error stop w => .error stop { t with world := w }

/-- Sets what the thread keeps and puts it back in the end, however the end comes. What is put back
depends on what was kept before and what is kept by then. -/
def during (enter : Scope → Scope) (leave : Scope → Scope → Scope) (x : Threaded α) : Threaded α :=
  fun t ↦
    match x { t with own := enter t.own } with
    | .ok a t' => .ok a { t' with own := leave t.own t'.own }
    | .error stop t' => .error stop { t' with own := leave t.own t'.own }

/-- Counts one resolution more while a computation runs. -/
def deeper (x : Threaded α) : Threaded α :=
  during Scope.deeper (fun _ s ↦ { s with depth := s.depth - 1 }) x

/-- Keeps a token and counts one resolution more while a job runs. -/
def withToken (token : Token) (x : Threaded α) : Threaded α :=
  during (fun s ↦ { depth := s.depth + 1, token := some token })
    (fun before s ↦ { depth := s.depth - 1, token := before.token }) x

/-- Runs a computation on the other thread. -/
def elsewhere (x : Threaded α) : Threaded α := fun t ↦
  match x { t with own := t.other, other := t.own } with
  | .ok a t' => .ok a { t' with own := t'.other, other := t'.own }
  | .error stop t' => .error stop { t' with own := t'.other, other := t'.own }

/-- Makes a value of a breakdown. -/
def contain (x : Threaded α) (recover : String → α) : Threaded α := fun t ↦
  match x t with
  | .error (.fault message) t => .ok (recover message) t
  | result => result

end Threaded

namespace Threaded

variable {α : Type} (env : Env) (fill : String → Threaded Value) (chain : Chain)

/-- The limit that has passed, if one has. -/
def passed? : Threaded (Option Limit) := here fun s ↦ return s.passed? (← get).clock

/-- The filled parameter at a place; none once time has run out. -/
def param (p : Progress) (offset : Nat) : Threaded (Option Value) := do
  match ← passed? with
  | some _ => return none
  | none =>
    if p.canCount offset chain.length then
      match ({ p with chain } : Cursor).param? offset with
      | none => return none
      | some raw => return some (← fill raw)
    else throw (.fault overflowFault)

/-- The answer to a query. What fills no text is answered as in a frame, whatever that fills
with. -/
def answer (p : Progress) : (q : Query) → Threaded (q.Answer × Progress)
  | .param offset => return (← param fill chain p offset, p)
  | .fill text => return (← fill text, p)
  | query => here fun s ↦ Frame.answer ⟨env, s, fun _ ↦ throw .exhausted, chain⟩ p query

/-- Runs a handler. -/
def run : Handler α → Progress → Threaded (α × Progress)
  | .done a, p => return (a, p)
  | .fault message, _ => throw (.fault message)
  | .ask query next, p => do
    let (a, p) ← answer env fill chain p query
    run (next a) p

/-- Runs a handler with its call and its return in the trace. -/
def call (callee : Callee) (h : Handler (Option Value)) (p : Progress) :
    Threaded (Option Value × Progress) := do
  here fun _ ↦ Run.emit (.called callee)
  let result ← run env fill chain h p
  here fun s ↦ do
    Run.emit (.returned callee s.depth result.1.isSome (s.passed? (← get).clock).isSome)
  return result

/-- Carries a plan out. -/
def exec : Plan α → Threaded α
  | .ends a => return a
  | .look next => do exec (next (← passed?))
  | .call callee handler p next => do exec (next (← call env fill chain callee handler p))

/-- Resolves a chain on the thread at work. -/
def resolveInline : Threaded Outcome :=
  deeper <| contain (exec env fill chain (Plan.ofChain env.registry chain)) fun message ↦
    .halted (Halt.atRoot chain (.workerFault message))

/-- Resolves a chain as a job on the other thread. -/
def resolveGuarded (limit : Limit) : Threaded Outcome := do
  let token : Token ← here fun _ ↦ return ⟨limit, (← get).clock + limit.nanos⟩
  let outcome ← elsewhere <| withToken token do
    here fun _ ↦ Run.emit .before
    let outcome ← resolveInline env fill chain
    here fun _ ↦ Run.emit .after
    return outcome
  match ← here fun _ ↦ return ({ token := some token } : Scope).passed? (← get).clock with
  | some limit => return .halted (Halt.atRoot chain (.timeout limit))
  | none => return outcome

/-- Resolves a chain, as a job where the host asks for it and the thread is resolving nothing. -/
def resolveTimed : Threaded Outcome :=
  match env.context.timeLimit with
  | .unrepresentable => throw (.fault timeLimitFault)
  | .unlimited => resolveInline env fill chain
  | .within limit => do
    if (← here fun s ↦ return s.depth) = 0 ∧ env.host.timeBoxes env.context then
      resolveGuarded env fill chain limit
    else resolveInline env fill chain

/-- Resolves a chain, with its beginning and its end in the trace. -/
def resolve : Threaded Outcome := do
  let start ← here fun _ ↦ return (← get).clock
  here fun s ↦ Run.emit (.began s.depth)
  let outcome ← resolveTimed env fill chain
  here fun s ↦ do Run.emit (.ended s.depth start (← get).clock)
  return outcome

/-- The value of a tag, or what stands in for it. -/
def readTag (tag : Tag) : Threaded Value := do
  match ← resolve env fill tag.chain with
  | .fulfilled v _ =>
    here fun _ ↦ env.reportFill tag v
    return v
  | .halted halt =>
    match tag.chain.alternative with
    | some alternative =>
      let v ← fill alternative
      here fun _ ↦ env.reportFill tag v
      return v
    | none =>
      here fun _ ↦ env.report (Report.events tag.raw halt)
      return .element ("<" ++ tag.raw ++ ">")

/-- The text that a fragment is filled with. -/
def fillFragment : Fragment → Threaded String
  | .literal text => return text
  | .tag tag => return (← readTag env fill tag).identity
  | .issue message source => do
    here fun _ ↦ env.report [.error message]
    return source

/-- The text that fragments are filled with. -/
def fillFragments : List Fragment → Threaded String
  | [] => return ""
  | fragment :: rest => do
    let first ← fillFragment env fill fragment
    let others ← fillFragments rest
    return first ++ others

/-- Fills a text, the texts nested in it by `fill`. -/
def fillText (text : String) : Threaded Value := do
  if text = "" then return .element ""
  else
    let shared ← here fun _ ↦ Run.parse text
    match shared.parsed.single? with
    | some tag => readTag env fill tag
    | none => return .element (← fillFragments env fill shared.parsed.fragments)

/-- Fills a text in which texts are nested less deep than `levels`. -/
def fillWithin : Nat → String → Threaded Value
  | 0, _ => throw .exhausted
  | levels + 1, text => fillText env (fillWithin levels) text

end Threaded

/-! ## Threads are left as they were found -/

/-- Threads of which one is idle where the other resolves nothing. -/
def Threads.Settled (t : Threads) : Prop := t.own.depth = 0 → t.other = {}

namespace Threaded

variable {α β : Type} {x : Threaded α} {y : Scope → Run α}

/-- Whether a computation on threads is a run in the scope that the thread keeps, and leaves the
threads as they were. -/
def Lexical (x : Threaded α) (y : Scope → Run α) : Prop := ∀ t : Threads, t.Settled → x t = here y t

/-- The threads in which a computation ends. -/
def last (x : Threaded α) (t : Threads) : Threads :=
  match x t with
  | .ok _ t' => t'
  | .error _ t' => t'

private theorem last_here (y : Scope → Run α) (t : Threads) :
    ((here y).last t).own = t.own ∧ ((here y).last t).other = t.other := by
  unfold last here
  cases y t.own t.world <;> exact ⟨rfl, rfl⟩

/-- A lexical run leaves the threads as they were. -/
theorem Lexical.last (h : Lexical x y) {t : Threads} (settled : t.Settled) :
    (x.last t).own = t.own ∧ (x.last t).other = t.other := by
  have same : x.last t = (here y).last t := by rw [Threaded.last, Threaded.last, h t settled]
  rw [same]
  exact last_here y t

private theorem here_of_ok {t : Threads} {a : α} {w : World} (h : y t.own t.world = .ok a w) :
    here y t = .ok a { t with world := w } := by
  rw [here, h]

private theorem here_of_error {t : Threads} {stop : Stop} {w : World}
    (h : y t.own t.world = .error stop w) : here y t = .error stop { t with world := w } := by
  rw [here, h]

private theorem here_congr {y' : Scope → Run α} {t : Threads}
    (h : y t.own t.world = y' t.own t.world) : here y t = here y' t := by
  rw [here, here, h]

private theorem bind_of_ok {g : α → Threaded β} {t t' : Threads} {a : α} (h : x t = .ok a t') :
    (x >>= g) t = g a t' := by
  change EStateM.bind x g t = _
  rw [EStateM.bind, h]

private theorem bind_of_error {g : α → Threaded β} {t t' : Threads} {stop : Stop}
    (h : x t = .error stop t') : (x >>= g) t = .error stop t' := by
  change EStateM.bind x g t = _
  rw [EStateM.bind, h]

namespace Lexical

private theorem here (y : Scope → Run α) : Lexical (here y) y := fun _ _ ↦ rfl

private theorem pure (a : α) : Lexical (pure a) fun _ ↦ Pure.pure a := fun _ _ ↦ rfl

private theorem throw (stop : Stop) :
    Lexical (throw stop : Threaded α) fun _ ↦ MonadExcept.throw stop :=
  fun _ _ ↦ rfl

private theorem bind_at {g : α → Threaded β} {h : α → Scope → Run β} {t : Threads}
    (settled : t.Settled) (first : x t = Threaded.here y t) (next : ∀ a, Lexical (g a) (h a)) :
    (x >>= g) t = Threaded.here (fun s ↦ y s >>= fun a ↦ h a s) t := by
  cases ends : y t.own t.world with
  | ok a w =>
    rw [bind_of_ok (first.trans (here_of_ok ends)), next a { t with world := w } settled]
    unfold Threaded.here
    dsimp only
    rw [Run.bind_of_ok ends]
  | error stop w =>
    rw [bind_of_error (first.trans (here_of_error ends))]
    exact (here_of_error (Run.bind_of_error ends)).symm

private theorem bind {g : α → Threaded β} {h : α → Scope → Run β} (first : Lexical x y)
    (next : ∀ a, Lexical (g a) (h a)) : Lexical (x >>= g) fun s ↦ y s >>= fun a ↦ h a s :=
  fun t settled ↦ bind_at settled (first t settled) next

private theorem contain (h : Lexical x y) (recover : String → α) :
    Lexical (contain x recover) fun s ↦ (y s).contain recover := by
  intro t settled
  unfold Threaded.contain
  rw [h t settled]
  unfold Threaded.here Run.contain
  dsimp only
  cases y t.own t.world with
  | ok a w => rfl
  | error stop w => cases stop <;> rfl

private theorem deeper (h : Lexical x y) : Lexical (deeper x) fun s ↦ y s.deeper := by
  intro t settled
  have raised : ({ t with own := t.own.deeper } : Threads).Settled := nofun
  unfold Threaded.deeper during
  rw [h _ raised]
  unfold Threaded.here
  dsimp only
  cases y t.own.deeper t.world <;> rfl

/-- A job runs in a scope of its own, and nothing of that is left on either thread. -/
theorem job (h : Lexical x y) (token : Token) {t : Threads} (settled : t.Settled)
    (free : t.own.depth = 0) :
    elsewhere (withToken token x) t =
      Threaded.here (fun _ ↦ y { depth := 1, token := some token }) t := by
  obtain ⟨w, own, other⟩ := t
  obtain rfl : other = {} := settled free
  have busy : (Threads.mk w { depth := 1, token := some token } own).Settled := nofun
  unfold elsewhere withToken during
  dsimp only
  rw [h _ busy]
  unfold Threaded.here
  dsimp only
  cases y { depth := 1, token := some token } w <;> rfl

end Lexical

variable {env : Env} {fill : String → Threaded Value} {plain : Scope → String → Run Value}
  {chain : Chain}

private theorem passed?_lexical (env : Env) (plain : Scope → String → Run Value) (chain : Chain) :
    Lexical passed? fun s ↦ Frame.passed? ⟨env, s, plain s, chain⟩ := fun _ _ ↦ rfl

section

variable (fills : ∀ text, Lexical (fill text) fun s ↦ plain s text)

include fills

private theorem param_lexical (p : Progress) (offset : Nat) :
    Lexical (param fill chain p offset) fun s ↦ Frame.param ⟨env, s, plain s, chain⟩ p offset := by
  refine (passed?_lexical env plain chain).bind fun passed ↦ ?_
  cases passed with
  | some limit => exact .pure _
  | none =>
    unfold Frame.counting Frame.cursor
    dsimp only
    split
    · cases ({ p with chain } : Cursor).param? offset with
      | none => exact .pure _
      | some raw => exact (fills raw).bind fun v ↦ .pure _
    · exact .throw _

private theorem answer_lexical (p : Progress) (q : Query) :
    Lexical (answer env fill chain p q) fun s ↦ Frame.answer ⟨env, s, plain s, chain⟩ p q := by
  cases q with
  | param offset => exact (param_lexical fills p offset).bind fun _ ↦ .pure _
  | fill text => exact (fills text).bind fun _ ↦ .pure _
  | _ => exact fun _ _ ↦ rfl

private theorem run_lexical {α : Type} (h : Handler α) (p : Progress) :
    Lexical (run env fill chain h p) fun s ↦ Frame.run ⟨env, s, plain s, chain⟩ h p := by
  induction h generalizing p with
  | done a => exact .pure _
  | fault message => exact .throw _
  | ask query next ih => exact (answer_lexical fills p query).bind fun r ↦ ih r.1 r.2

private theorem call_lexical (callee : Callee) (h : Handler (Option Value)) (p : Progress) :
    Lexical (call env fill chain callee h p) fun s ↦
      Frame.call ⟨env, s, plain s, chain⟩ callee h p := by
  refine (Lexical.here fun _ ↦ Run.emit (.called callee)).bind fun _ ↦ ?_
  exact (run_lexical fills h p).bind fun result ↦ (Lexical.here _).bind fun _ ↦ .pure _

private theorem exec_lexical {α : Type} (x : Plan α) :
    Lexical (exec env fill chain x) fun s ↦ x.exec ⟨env, s, plain s, chain⟩ := by
  induction x with
  | ends a => exact .pure _
  | look next ih => exact (passed?_lexical env plain chain).bind ih
  | call callee handler p next ih => exact (call_lexical fills callee handler p).bind ih

private theorem resolveInline_lexical (chain : Chain) :
    Lexical (resolveInline env fill chain) fun s ↦ env.resolveInline plain s chain := by
  have planned : Lexical (exec env fill chain (Plan.ofChain env.registry chain)) fun s ↦
      (Plan.ofChain env.registry chain).exec ⟨env, s, plain s, chain⟩ := exec_lexical fills _
  have whole := planned.contain fun message ↦ .halted (Halt.atRoot chain (.workerFault message))
  have plan (s : Scope) := Plan.exec_ofChain ⟨env, s, plain s, chain⟩
  dsimp only at plan
  simp only [plan] at whole
  exact whole.deeper

private theorem resolveGuarded_lexical (chain : Chain) (limit : Limit) {t : Threads}
    (settled : t.Settled) (free : t.own.depth = 0) :
    resolveGuarded env fill chain limit t =
      here (fun _ ↦ env.resolveGuarded plain limit chain) t := by
  have inside : Lexical (do
      here fun _ ↦ Run.emit .before
      let outcome ← resolveInline env fill chain
      here fun _ ↦ Run.emit .after
      return outcome) fun s ↦ do
        Run.emit .before
        let outcome ← env.resolveInline plain s chain
        Run.emit .after
        return outcome :=
    (Lexical.here _).bind fun _ ↦ (resolveInline_lexical fills chain).bind fun outcome ↦
      (Lexical.here _).bind fun _ ↦ .pure _
  have token : here (fun _ ↦ return (⟨limit, (← get).clock + limit.nanos⟩ : Token)) t =
      .ok ⟨limit, t.world.clock + limit.nanos⟩ t := rfl
  rw [resolveGuarded, bind_of_ok token]
  let passed : Run (Option Limit) := do
    return ({ token := some ⟨limit, t.world.clock + limit.nanos⟩ } : Scope).passed? (← get).clock
  let kept (outcome : Outcome) : Option Limit → Run Outcome
    | some limit => return .halted (Halt.atRoot chain (.timeout limit))
    | none => return outcome
  have rest (outcome : Outcome) : Lexical (do
      match ← here fun _ ↦ passed with
      | some limit => return .halted (Halt.atRoot chain (.timeout limit))
      | none => return outcome) fun _ ↦ passed >>= kept outcome :=
    (Lexical.here fun _ ↦ passed).bind fun limit ↦ by cases limit <;> exact .pure _
  have job := inside.job ⟨limit, t.world.clock + limit.nanos⟩ settled free
  refine (Lexical.bind_at settled job rest).trans (here_congr ?_)
  simp only [bind_assoc, pure_bind]
  rfl

private theorem resolveTimed_lexical (chain : Chain) :
    Lexical (resolveTimed env fill chain) fun s ↦ env.resolveTimed plain s chain := by
  unfold resolveTimed Env.resolveTimed
  cases env.context.timeLimit with
  | unrepresentable => exact .throw _
  | unlimited => exact resolveInline_lexical fills chain
  | within limit =>
    intro t settled
    have depth : here (fun s ↦ return s.depth) t = .ok t.own.depth t := rfl
    dsimp only
    rw [bind_of_ok depth]
    by_cases job : t.own.depth = 0 ∧ env.host.timeBoxes env.context
    · rw [if_pos job, resolveGuarded_lexical fills chain limit settled job.1]
      exact here_congr (by rw [if_pos job])
    · rw [if_neg job, resolveInline_lexical fills chain t settled]
      exact here_congr (by rw [if_neg job])

private theorem resolve_lexical (chain : Chain) :
    Lexical (resolve env fill chain) fun s ↦ env.resolve plain s chain :=
  (Lexical.here fun _ ↦ return (← get).clock).bind fun _ ↦ (Lexical.here _).bind fun _ ↦
    (resolveTimed_lexical fills chain).bind fun _ ↦ (Lexical.here _).bind fun _ ↦ .pure _

private theorem readTag_lexical (tag : Tag) :
    Lexical (readTag env fill tag) fun s ↦ env.readTag plain s tag := by
  refine (resolve_lexical fills tag.chain).bind fun outcome ↦ ?_
  cases outcome with
  | fulfilled v _ => exact (Lexical.here _).bind fun _ ↦ .pure _
  | halted halt =>
    dsimp only
    cases tag.chain.alternative with
    | some alternative =>
      exact (fills alternative).bind fun v ↦ (Lexical.here _).bind fun _ ↦ .pure _
    | none => exact (Lexical.here _).bind fun _ ↦ .pure _

private theorem fillFragments_lexical (fragments : List Fragment) :
    Lexical (fillFragments env fill fragments) fun s ↦ env.fillFragments plain s fragments := by
  induction fragments with
  | nil => exact .pure _
  | cons fragment rest ih =>
    have first : Lexical (fillFragment env fill fragment) fun s ↦
        env.fillFragment plain s fragment := by
      cases fragment with
      | literal text => exact .pure _
      | tag tag => exact (readTag_lexical fills tag).bind fun _ ↦ .pure _
      | issue message source => exact (Lexical.here _).bind fun _ ↦ .pure _
    exact first.bind fun _ ↦ ih.bind fun _ ↦ .pure _

private theorem fillText_lexical (text : String) :
    Lexical (fillText env fill text) fun s ↦ env.fillText plain s text := by
  unfold fillText Env.fillText
  split
  · exact .pure _
  · refine (Lexical.here fun _ ↦ Run.parse text).bind fun shared ↦ ?_
    cases shared.parsed.single? with
    | some tag => exact readTag_lexical fills tag
    | none => exact (fillFragments_lexical fills _).bind fun _ ↦ .pure _

end

/-- To fill a text on a thread is to fill it in the scope that the thread keeps. Whatever breaks
down on the way, both threads are left as they were. -/
theorem fillWithin_lexical (env : Env) (levels : Nat) (text : String) :
    Lexical (fillWithin env levels text) fun s ↦ env.fillWithin levels s text := by
  induction levels generalizing text with
  | zero => exact .throw _
  | succ levels ih => exact fillText_lexical ih text

end Threaded

end TextTags
