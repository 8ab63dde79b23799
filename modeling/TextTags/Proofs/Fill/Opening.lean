import TextTags.Fill.Text
import TextTags.Proofs.Fill.Run

/-!
# Where a chain is resolved

A chain is resolved where its caller stands, or in a job under the time limit. What comes of it
there is its outcome, unless it was a job and its limit has passed by then.
-/

namespace TextTags

namespace Run

/-- A run with a value gives it between its marks. -/
theorem marked_of_ok {α : Type} {depth : Nat} {x : Run α} {a : α} {w u : World}
    (h : x { w with trace := w.trace ++ [.began depth] } = .ok a u) :
    Run.marked depth x w = .ok a { u with trace := u.trace ++ [.ended depth w.clock u.clock] } :=
  bind_of_ok (f := fun a ↦ do emit (.ended depth w.clock (← get).clock); return a) h

/-- A run that stops leaves no mark of its end. -/
theorem marked_of_error {α : Type} {depth : Nat} {x : Run α} {stop : Stop} {w u : World}
    (h : x { w with trace := w.trace ++ [.began depth] } = .error stop u) :
    Run.marked depth x w = .error stop u :=
  bind_of_error (f := fun a ↦ do emit (.ended depth w.clock (← get).clock); return a) h

end Run

namespace Env

open Run

/-- The time limit of the job in which a chain is resolved, if it is resolved in one. -/
def jobLimit? (env : Env) (s : Scope) : Option Limit :=
  match env.context.timeLimit with
  | .within limit => if s.depth = 0 ∧ env.host.timeBoxes env.context then some limit else none
  | _ => none

/-- The scope and the world in which a chain is resolved in the end. -/
def opening (env : Env) (s : Scope) (w : World) : Scope × World :=
  let began := (Run.emit (.began s.depth)).last w
  match env.jobLimit? s with
  | some limit => (.ofJob limit w.clock, (Run.emit .before).last began)
  | none => (s, began)

/-- The world after a resolution that began at a reading of the clock, from the one in which its
chain came to an end. -/
def closing (env : Env) (s : Scope) (start : Nat) (u : World) : World :=
  match env.jobLimit? s with
  | some _ => (Run.emit (.ended s.depth start u.clock)).last ((Run.emit .after).last u)
  | none => (Run.emit (.ended s.depth start u.clock)).last u

/-- The outcome of a chain from what comes of it between two readings of the clock. -/
def settled (env : Env) (s : Scope) (chain : Chain) (start stop : Nat) (outcome : Outcome) :
    Outcome :=
  match env.jobLimit? s with
  | some limit =>
    if start + limit.nanos ≤ stop then .halted (Halt.atRoot chain (.timeout limit)) else outcome
  | none => outcome

variable {env : Env} {fill : Scope → String → Run Value} {s : Scope} {chain : Chain} {w u : World}

/-- Nothing is parsed before a chain is resolved. -/
theorem cache_opening (env : Env) (s : Scope) (w : World) :
    (env.opening s w).2.cache = w.cache := by
  unfold opening
  split <;> rfl

/-- A chain is resolved in a job if it has a limit for one. -/
theorem resolveTimed_eq (limit : env.context.timeLimit ≠ .unrepresentable) :
    env.resolveTimed fill s chain = match env.jobLimit? s with
      | some limit => env.resolveGuarded fill limit chain
      | none => env.resolveInline fill s chain := by
  unfold resolveTimed jobLimit?
  cases timed : env.context.timeLimit with
  | unrepresentable => exact absurd timed limit
  | unlimited => rfl
  | within limit =>
    dsimp only
    split <;> rfl

/-- Inside a resolution no job begins. -/
theorem jobLimit?_of_nested (env : Env) (nested : 0 < s.depth) : env.jobLimit? s = none := by
  unfold jobLimit?
  split
  · exact if_neg fun alone ↦ Nat.ne_of_gt nested alone.1
  · rfl

/-- What becomes of a job that has an outcome: the outcome, if there is time left. -/
theorem resolveGuarded_of_ok {limit : Limit} {outcome : Outcome}
    (h : env.resolveInline fill (.ofJob limit w.clock) chain
      { w with trace := w.trace ++ [.before] } = .ok outcome u) :
    env.resolveGuarded fill limit chain w =
      .ok (if w.clock + limit.nanos ≤ u.clock then .halted (Halt.atRoot chain (.timeout limit))
        else outcome) { u with trace := u.trace ++ [.after] } := by
  refine (bind_of_ok h).trans <| (bind_of_ok (x := emit .after) rfl).trans <|
    (bind_of_ok (x := get) rfl).trans ?_
  dsimp only [Scope.passed?, Scope.ofJob]
  split <;> rfl

/-- A job that stops without an outcome gives none. -/
theorem resolveGuarded_of_error {limit : Limit} {stop : Stop}
    (h : env.resolveInline fill (.ofJob limit w.clock) chain
      { w with trace := w.trace ++ [.before] } = .error stop u) :
    env.resolveGuarded fill limit chain w = .error stop u :=
  (bind_of_error h).trans rfl

/-- A chain with an outcome is settled for it and closed. -/
theorem resolve_eq_of_ok (limit : env.context.timeLimit ≠ .unrepresentable) {outcome : Outcome}
    (h : env.resolveInline fill (env.opening s w).1 chain (env.opening s w).2 = .ok outcome u) :
    env.resolve fill s chain w =
      .ok (env.settled s chain w.clock u.clock outcome) (env.closing s w.clock u) := by
  unfold resolve opening settled closing at *
  rw [resolveTimed_eq limit]
  cases job : env.jobLimit? s with
  | none =>
    rw [job] at h
    exact marked_of_ok h
  | some limit =>
    rw [job] at h
    exact marked_of_ok (resolveGuarded_of_ok (w := (Run.emit (.began s.depth)).last w) h)

private theorem clock_closing (env : Env) (s : Scope) (start : Nat) (u : World) :
    (env.closing s start u).clock = u.clock := by
  unfold closing
  split <;> rfl

/-- A chain with an outcome is settled for it when it is closed. -/
theorem resolve_of_ok (limit : env.context.timeLimit ≠ .unrepresentable) {outcome : Outcome}
    (h : env.resolveInline fill (env.opening s w).1 chain (env.opening s w).2 = .ok outcome u) :
    ∃ u', env.resolve fill s chain w = .ok (env.settled s chain w.clock u'.clock outcome) u' ∧
      u'.clock = u.clock := by
  have clock := env.clock_closing s w.clock u
  exact ⟨_, clock ▸ resolve_eq_of_ok limit h, clock⟩

/-- A chain that stops without an outcome stops its resolution. -/
theorem resolve_of_error (limit : env.context.timeLimit ≠ .unrepresentable) {stop : Stop}
    (h : env.resolveInline fill (env.opening s w).1 chain (env.opening s w).2 = .error stop u) :
    env.resolve fill s chain w = .error stop u := by
  unfold resolve opening at *
  rw [resolveTimed_eq limit]
  cases job : env.jobLimit? s with
  | none =>
    rw [job] at h
    exact marked_of_error h
  | some limit =>
    rw [job] at h
    exact marked_of_error (resolveGuarded_of_error (w := (Run.emit (.began s.depth)).last w) h)

end Env

end TextTags
