import TextTags.Fill.Text
import TextTags.Proofs.Fill.Run

/-!
# The calls of a resolution

Between two calls of handlers, resolving a chain looks at the clock and decides what to call next.
That part of it is a plan: a tree with a call or a look at the clock at every node, the same
whatever the handlers do. What holds of a resolution is told by the calls that it makes, in order.
-/

namespace TextTags

/-- What is done between the calls of handlers. -/
inductive Plan (α : Type) : Type
  | ends (a : α)
  /-- What follows depends on the limit that has passed, if one has. -/
  | look (next : Option Limit → Plan α)
  /-- A handler is called from a progress. -/
  | call (callee : Callee) (handler : Handler (Option Value)) (p : Progress)
    (next : Option Value × Progress → Plan α)

/-- A handler about to be called. -/
structure Call where
  callee : Callee
  handler : Handler (Option Value)
  /-- How far the chain has come. -/
  progress : Progress
  world : World

/-- How a call ends. -/
def Frame.callEnd (f : Frame) (c : Call) : EStateM.Result Stop World (Option Value × Progress) :=
  f.call c.callee c.handler c.progress c.world

namespace Plan

variable {α β : Type}

/-- One plan after another. -/
def bind (x : Plan α) (g : α → Plan β) : Plan β :=
  match x with
  | ends a => g a
  | look next => look fun passed => bind (next passed) g
  | call callee handler p next => call callee handler p fun result => bind (next result) g

instance : Monad Plan where
  pure := ends
  bind := bind

/-- Carries a plan out. -/
def exec (f : Frame) : Plan α → Run α
  | ends a => return a
  | look next => do (next (← f.passed?)).exec f
  | call callee handler p next => do (next (← f.call callee handler p)).exec f

/-- The calls that are made when a plan is carried out, in order. -/
def calls (f : Frame) : Plan α → World → List Call
  | ends _, _ => []
  | look next, w => (next (f.scope.passed? w.clock)).calls f w
  | call callee handler p next, w =>
    ⟨callee, handler, p, w⟩ ::
      match f.call callee handler p w with
      | .ok result w => (next result).calls f w
      | .error _ _ => []

private theorem exec_bind (f : Frame) (x : Plan α) (g : α → Plan β) :
    (x >>= g).exec f = x.exec f >>= fun a ↦ (g a).exec f := by
  change (x.bind g).exec f = _
  induction x with
  | ends a => rfl
  | look next ih | call callee handler p next ih => simp only [bind, exec, ih, bind_assoc]

/-- A plan breaks off where the last of its calls does. -/
theorem exec_eq_error_iff {f : Frame} {x : Plan α} {w w' : World} {stop : Stop} :
    x.exec f w = .error stop w' ↔ ∃ c ∈ x.calls f w, f.callEnd c = .error stop w' := by
  induction x generalizing w with
  | ends a => exact ⟨nofun, nofun⟩
  | look next ih => exact ih _
  | call callee handler p next ih =>
    rw [exec, calls]
    cases ends : f.call callee handler p w with
    | ok result u =>
      have first : f.callEnd ⟨callee, handler, p, w⟩ ≠ .error stop w' := by
        rw [Frame.callEnd, ends]
        nofun
      rw [Run.bind_of_ok ends, ih result]
      simp only [List.mem_cons, exists_eq_or_imp, first, false_or]
    | error first u =>
      rw [Run.bind_of_error ends]
      simp [Frame.callEnd, ends]

end Plan

namespace Plan

variable (r : Registry) (chain : Chain)

/-- Applies a named attribute. -/
def apply (callee : Callee) (attr : Attr) (v : Value) (kind : Kind) (p : Progress) :
    Plan (Except Halt Value × Progress) :=
  if attr.arity = .required ∧ !({ p with chain } : Cursor).hasParam 0 then
    let p := { p with lacksParam := true }.seem attr.name
    ends (.error (p.halt chain (.argumentRequired attr.name) []), p)
  else
    call callee (attr.handler v) p fun (result, p) =>
      match result with
      | some next => ends (.ok next, p)
      | none =>
        let p := p.seem attr.name
        let near := r.near kind attr.name (({ p with chain } : Cursor).hasParam 0)
        let failure := Failure.unresolvedAttribute attr.name kind p.fulfilled
        ends (.error (p.halt chain failure (near.filter (· != attr.name))), p)

/-- Gives a segment to a kind's fallback. -/
def tryFallback (v : Value) (p : Progress) : Plan (Option Value × Progress) :=
  match r.fallback? v.kind with
  | some handler => call (.fallback v.kind) (handler v) p ends
  | none => ends (none, p)

/-- The attributes that remain after the kind's own and its fallback. -/
def applyShared (v : Value) (s : Segment) (p : Progress) : Plan (Except Halt Value × Progress) :=
  match r.universal? s.key with
  | some attr => apply r chain (.universal attr.name) attr v v.kind p
  | none =>
    match if v.kind = .element then none else r.attribute? .element s.key with
    | some attr => apply r chain (.attr .element attr.name) attr (.element v.asElement) v.kind p
    | none =>
      let near := r.near v.kind s.key s.param.isSome
      let name := (((({ p with chain } : Cursor)).segment? 0).map (·.rawKey)).getD ""
      let failure := Failure.unresolvedAttribute name v.kind p.fulfilled
      ends (.error (p.halt chain failure near), p)

/-- Applies the present segment to a value. -/
def dispatch (v : Value) (p : Progress) : Plan (Except Halt Value × Progress) :=
  match ({ p with chain } : Cursor).segment? 0 with
  | none => ends (.ok v, p)
  | some s =>
    match r.attribute? v.kind s.key with
    | some attr => apply r chain (.attr v.kind attr.name) attr v v.kind p
    | none => tryFallback r v p >>= fun (result, p) =>
      match result with
      | some next => ends (.ok next, p)
      | none => applyShared r chain v s p

/-- Applies the segments that remain. -/
def walk : Nat → Value → Progress → Plan Outcome
  | 0, v, p => ends (.fulfilled v p.fulfilled)
  | steps + 1, v, p =>
    if chain.length ≤ p.fulfilled then ends (.fulfilled v p.fulfilled)
    else look fun passed =>
      match passed with
      | some limit => ends (.halted (p.halt chain (.timeout limit) []))
      | none => dispatch r chain v p >>= fun (result, p) =>
        match result with
        | .error halt => ends (.halted halt)
        | .ok next => look fun passed =>
          match passed with
          | some limit => ends (.halted (p.halt chain (.timeout limit) []))
          | none => walk steps next (p.advance next chain.length)

/-- The plan for a chain. -/
def ofChain : Plan Outcome :=
  let key := chain.root.key
  match r.base? key with
  | none => ends (.halted (Halt.atRoot chain (.unresolvedBase key false)))
  | some base => call (.base base.name) base.handler {} fun (result, p) => look fun passed =>
    match passed with
    | some limit => ends (.halted (p.halt chain (.timeout limit) []))
    | none =>
      match result with
      | none => ends (.halted (p.halt chain (.unresolvedBase key true) []))
      | some v => walk r chain chain.length v (p.advance v chain.length)

variable (f : Frame)

private theorem exec_apply (callee : Callee) (attr : Attr) (v : Value) (kind : Kind)
    (p : Progress) :
    (apply f.env.registry f.chain callee attr v kind p).exec f = f.apply callee attr v kind p := by
  unfold apply Frame.apply Frame.cursor
  split
  · rfl
  · refine bind_congr fun (result, p) ↦ ?_
    cases result <;> rfl

private theorem exec_tryFallback (v : Value) (p : Progress) :
    (tryFallback f.env.registry v p).exec f = f.tryFallback v p := by
  unfold tryFallback Frame.tryFallback
  cases f.env.registry.fallback? v.kind with
  | some handler => exact bind_pure (f.call _ (handler v) p)
  | none => rfl

private theorem exec_applyShared (v : Value) (s : Segment) (p : Progress) :
    (applyShared f.env.registry f.chain v s p).exec f = f.applyShared v s p := by
  unfold applyShared Frame.applyShared
  cases f.env.registry.universal? s.key with
  | some attr => exact exec_apply f ..
  | none =>
    cases if v.kind = .element then none else f.env.registry.attribute? .element s.key with
    | some attr => exact exec_apply f ..
    | none => rfl

private theorem exec_dispatch (v : Value) (p : Progress) :
    (dispatch f.env.registry f.chain v p).exec f = f.dispatch v p := by
  unfold dispatch Frame.dispatch Frame.cursor
  cases ({ p with chain := f.chain } : Cursor).segment? 0 with
  | none => rfl
  | some s =>
    dsimp only
    cases f.env.registry.attribute? v.kind s.key with
    | some attr => exact exec_apply f ..
    | none =>
      dsimp only
      rw [exec_bind, exec_tryFallback]
      refine bind_congr fun (result, p) ↦ ?_
      cases result with
      | some next => rfl
      | none => exact exec_applyShared f ..

private theorem exec_walk (steps : Nat) (v : Value) (p : Progress) :
    (walk f.env.registry f.chain steps v p).exec f = f.walk steps v p := by
  induction steps generalizing v p with
  | zero => rfl
  | succ steps ih =>
    unfold walk Frame.walk
    split
    · rfl
    · refine bind_congr fun passed ↦ ?_
      cases passed with
      | some limit => rfl
      | none =>
        dsimp only
        rw [exec_bind, exec_dispatch]
        refine bind_congr fun (result, p) ↦ ?_
        cases result with
        | error halt => rfl
        | ok next =>
          refine bind_congr fun passed ↦ ?_
          cases passed with
          | some limit => rfl
          | none => exact ih next _

/-- To resolve a chain is to carry out its plan. -/
theorem exec_ofChain : (ofChain f.env.registry f.chain).exec f = f.runChain := by
  unfold ofChain Frame.runChain
  dsimp only
  cases f.env.registry.base? f.chain.root.key with
  | none => rfl
  | some base =>
    refine bind_congr (x := f.call _ _ _) fun (result, p) ↦ ?_
    refine bind_congr (x := f.passed?) fun passed ↦ ?_
    cases passed with
    | some limit => rfl
    | none =>
      cases result with
      | none => rfl
      | some v => exact exec_walk f ..

end Plan

namespace Frame

/-- The calls of handlers that are made when the chain is resolved, in order. -/
def calls (f : Frame) (w : World) : List Call := (Plan.ofChain f.env.registry f.chain).calls f w

/-- A resolution breaks off where one of its calls does. -/
theorem runChain_eq_error_iff {f : Frame} {w w' : World} {stop : Stop} :
    f.runChain w = .error stop w' ↔ ∃ c ∈ f.calls w, f.callEnd c = .error stop w' := by
  rw [← Plan.exec_ofChain, calls, Plan.exec_eq_error_iff]

end Frame

end TextTags
