import TextTags.Proofs.Registry

/-!
# What handlers ask

A handler can do nothing but ask queries, so that what it can learn and do is told by the queries it
asks.
-/

namespace TextTags

/-- The queries whose answers lie in the chain, in its parameters, with the host, in the settings
and in the time limit. -/
def Query.isPlain : Query → Bool
  | .fill _ => false
  | .depth => false
  | .elapse _ => false
  | .awaitCancel => false
  | .note => false
  | _ => true

/-- Callers at one place and moment, with one draw and one time limit. They may differ in what they
want reported. -/
structure Context.Akin (c c' : Context) : Prop where
  site : c'.site = c.site
  timeout : c'.timeout = c.timeout
  now : c'.now = c.now
  draw : c'.draw = c.draw

namespace Handler

variable {α β : Type} {allowed : Query → Prop}

/-- A handler that asks only queries of one sort, whatever it is answered. -/
def AsksOnly (allowed : Query → Prop) : Handler α → Prop
  | .done _ => True
  | .fault _ => True
  | .ask query next => allowed query ∧ ∀ answer, AsksOnly allowed (next answer)

/-- A handler that asks plain queries only and does the same for callers that are akin. -/
def Discreet : Handler α → Prop
  | .done _ => True
  | .fault _ => True
  | .ask .context next =>
    (∀ c c', Context.Akin c c' → next c = next c') ∧ ∀ context, Discreet (next context)
  | .ask query next => query.isPlain ∧ ∀ answer, Discreet (next answer)

/-- A discreet handler that looks at nothing of the chain but the name and the parameter of the
present segment, and counts no segment. -/
def Local : Handler α → Prop
  | .done _ => True
  | .fault _ => True
  | .ask .cursor next =>
    (∀ c c' : Cursor, c.key? 0 = c'.key? 0 → c.param? 0 = c'.param? 0 → next c = next c') ∧
      ∀ c, Local (next c)
  | .ask (.param offset) next => offset = 0 ∧ ∀ v, Local (next v)
  | .ask (.host _) next => ∀ answer, Local (next answer)
  | .ask .context next =>
    (∀ c c', Context.Akin c c' → next c = next c') ∧ ∀ context, Local (next context)
  | .ask _ _ => False

/-- Where every query is allowed, every handler asks only what is allowed. -/
theorem asksOnly_of_forall (all : ∀ query, allowed query) (h : Handler α) : h.AsksOnly allowed := by
  induction h with
  | done | fault => trivial
  | ask query next ih => exact ⟨all query, ih⟩

/-- A handler that asks only some queries asks only such as these imply. -/
theorem AsksOnly.imp {allowed' : Query → Prop} (le : ∀ q, allowed q → allowed' q) {h : Handler α}
    (only : h.AsksOnly allowed) : h.AsksOnly allowed' := by
  induction h with
  | done | fault => trivial
  | ask query next ih => exact ⟨le query only.1, fun answer ↦ ih answer (only.2 answer)⟩

namespace Discreet

private theorem bind {h : Handler α} {f : α → Handler β} (first : h.Discreet)
    (next : ∀ a, (f a).Discreet) : (h.bind f).Discreet := by
  induction h with
  | done a => exact next a
  | fault message => trivial
  | ask query rest ih =>
    cases query with
    | context =>
      exact ⟨fun c c' akin ↦ congrArg (Handler.bind · f) (first.1 c c' akin),
        fun c ↦ ih c (first.2 c)⟩
    | _ => exact ⟨first.1, fun answer ↦ ih answer (first.2 answer)⟩

/-- A discreet attempt goes on discreetly with what it gives. -/
theorem attempt {x : Attempt α} {f : α → Attempt β} (first : Discreet x)
    (next : ∀ a, Discreet (f a)) : Discreet (Bind.bind (m := Attempt) x f) := by
  refine Discreet.bind first fun a ↦ ?_
  cases a with
  | none => trivial
  | some a => exact next a

/-- A discreet handler may read what contexts that are akin share. -/
theorem caller {f : Context → Attempt α} (same : ∀ c c', Context.Akin c c' → f c = f c')
    (next : ∀ c, Discreet (f c)) : Discreet (Bind.bind (m := Attempt) context f) :=
  ⟨same, next⟩

/-- A discreet handler asks only plain queries. -/
theorem asksOnly {h : Handler α} (discreet : h.Discreet) : h.AsksOnly fun q ↦ q.isPlain := by
  induction h with
  | done | fault => trivial
  | ask query next ih =>
    cases query with
    | context => exact ⟨rfl, fun c ↦ ih c (discreet.2 c)⟩
    | _ => exact ⟨discreet.1, fun answer ↦ ih answer (discreet.2 answer)⟩

end Discreet

namespace Local

private theorem bind {h : Handler α} {f : α → Handler β} (first : h.Local)
    (next : ∀ a, (f a).Local) :
    (h.bind f).Local := by
  induction h with
  | done a => exact next a
  | fault message => trivial
  | ask query rest ih =>
    cases query with
    | cursor =>
      exact ⟨fun c c' key param ↦ congrArg (Handler.bind · f) (first.1 c c' key param),
        fun c ↦ ih c (first.2 c)⟩
    | param => exact ⟨first.1, fun v ↦ ih v (first.2 v)⟩
    | host => exact fun answer ↦ ih answer (first answer)
    | context =>
      exact ⟨fun c c' akin ↦ congrArg (Handler.bind · f) (first.1 c c' akin),
        fun c ↦ ih c (first.2 c)⟩
    | _ => exact first.elim

/-- What is answered by the segment alone is discreet. -/
theorem discreet {h : Handler α} (local' : h.Local) : h.Discreet := by
  induction h with
  | done | fault => trivial
  | ask query next ih =>
    cases query with
    | cursor => exact ⟨rfl, fun c ↦ ih c (local'.2 c)⟩
    | param => exact ⟨rfl, fun v ↦ ih v (local'.2 v)⟩
    | host => exact ⟨rfl, fun answer ↦ ih answer (local' answer)⟩
    | context => exact ⟨local'.1, fun context ↦ ih context (local'.2 context)⟩
    | _ => exact local'.elim

/-- A local attempt goes on locally with what it gives. -/
theorem attempt {x : Attempt α} {f : α → Attempt β} (first : Local x) (next : ∀ a, Local (f a)) :
    Local (Bind.bind (m := Attempt) x f) := by
  refine Local.bind first fun a ↦ ?_
  cases a with
  | none => trivial
  | some a => exact next a

/-- A handler may read what contexts that are akin share. -/
theorem caller {f : Context → Attempt α} (same : ∀ c c', Context.Akin c c' → f c = f c')
    (next : ∀ c, Local (f c)) : Local (Bind.bind (m := Attempt) context f) :=
  ⟨same, next⟩

private theorem param : Local (Attempt.param 0) := ⟨rfl, fun _ ↦ trivial⟩

/-- The present parameter as text is local. -/
theorem paramText : Local (Attempt.paramText 0) := attempt param fun _ ↦ trivial

private theorem read (kind : Kind) (v : Value) (draw : Draws) :
    Local (kind.convert host v draw) := by
  unfold Kind.convert
  split
  · trivial
  · cases kind with
    | queue | script =>
      unfold Kind.read Kind.readReference
      dsimp only
      split
      · trivial
      · trivial
      · exact fun answer ↦ trivial
    | custom =>
      unfold Kind.read Kind.readCustom
      dsimp only
      split
      · exact fun answer ↦ trivial
      · exact fun answer ↦ trivial
    | _ => trivial

/-- The present parameter as a value of one kind is local. -/
theorem paramAs (kind : Kind) : Local (Attempt.paramAs kind 0) :=
  attempt param fun v ↦ caller (fun _ _ akin ↦ by rw [akin.draw]) fun c ↦ read kind v c.draw

/-- The present parameter as a duration is local. -/
theorem paramDuration : Local (Attempt.paramDuration 0) := by
  refine attempt (paramAs _) fun v ↦ ?_
  split <;> trivial

/-- The present parameter as a time is local. -/
theorem paramTime : Local (Attempt.paramTime 0) := by
  refine attempt (paramAs _) fun v ↦ ?_
  split <;> trivial

end Local

end Handler

/-- Whether the handlers of a registration have a property: that of a base one property, those of
values another. -/
def Registration.Satisfies (onBase onValue : Handler (Option Value) → Prop) : Registration → Prop
  | .base _ _ handler => onBase handler
  | .attributes _ _ _ handler => ∀ v, onValue (handler v)
  | .fallback _ handler => ∀ v, onValue (handler v)
  | .universal _ _ handler => ∀ v, onValue (handler v)

namespace Registry

/-- Whether the handlers of a registry have a property: those of bases one property, those of values
another. -/
structure Satisfies (onBase onValue : Handler (Option Value) → Prop) (r : Registry) : Prop where
  bases : ∀ e ∈ r.bases, onBase e.2.handler
  attributes : ∀ e ∈ r.attributes, ∀ v, onValue (e.2.handler v)
  fallbacks : ∀ e ∈ r.fallbacks, ∀ v, onValue (e.2 v)
  universals : ∀ e ∈ r.universals, ∀ v, onValue (e.2.handler v)

/-- A registry all of whose handlers ask only queries of one sort. -/
def AsksOnly (allowed : Query → Prop) (r : Registry) : Prop :=
  r.Satisfies (Handler.AsksOnly allowed) (Handler.AsksOnly allowed)

private theorem satisfies_of_forall {onBase onValue : Handler (Option Value) → Prop}
    (base : ∀ handler, onBase handler) (value : ∀ handler, onValue handler) (r : Registry) :
    r.Satisfies onBase onValue where
  bases _ _ := base _
  attributes _ _ _ := value _
  fallbacks _ _ _ := value _
  universals _ _ _ := value _

/-- Where every query is allowed, every registry asks only what is allowed. -/
theorem asksOnly_of_forall {allowed : Query → Prop} (all : ∀ query, allowed query) (r : Registry) :
    r.AsksOnly allowed :=
  satisfies_of_forall (Handler.asksOnly_of_forall all) (Handler.asksOnly_of_forall all) r

namespace Satisfies

variable {onBase onValue : Handler (Option Value) → Prop} {r : Registry}

/-- One property for the handlers of bases, another for those of values. -/
def onEach (onBase onValue : Handler (Option Value) → Prop) : Callee → ValueHandler → Prop
  | .base _, handler => onBase (handler default)
  | _, handler => ∀ v, onValue (handler v)

private theorem iff_has : r.Satisfies onBase onValue ↔ r.Has (onEach onBase onValue) :=
  ⟨fun h ↦ ⟨h.bases, h.attributes, h.fallbacks, h.universals⟩,
    fun h ↦ ⟨h.bases, h.attributes, h.fallbacks, h.universals⟩⟩

/-- What holds of all registrations holds of the registry that they make. -/
theorem ofHistory {history : List Registration}
    (all : ∀ registration ∈ history, registration.Satisfies onBase onValue) :
    (Registry.ofHistory history).Satisfies onBase onValue := by
  refine iff_has.2 (.ofHistory fun registration mem ↦ ?_)
  have new := all registration mem
  cases registration with
  | attributes kind names arity handler => exact fun _ _ ↦ new
  | base | fallback | universal => exact new

/-- A registry satisfies whatever its conditions imply. -/
theorem imp {onBase' onValue' : Handler (Option Value) → Prop} (h : r.Satisfies onBase onValue)
    (base : ∀ handler, onBase handler → onBase' handler)
    (value : ∀ handler, onValue handler → onValue' handler) : r.Satisfies onBase' onValue' where
  bases e mem := base _ (h.bases e mem)
  attributes e mem v := value _ (h.attributes e mem v)
  fallbacks e mem v := value _ (h.fallbacks e mem v)
  universals e mem v := value _ (h.universals e mem v)

/-- A base that is looked up satisfies the condition on bases. -/
theorem base (h : r.Satisfies onBase onValue) {key : String} {base : Base}
    (found : r.base? key = some base) : onBase base.handler :=
  (iff_has.1 h).base found

/-- An attribute that is looked up satisfies the condition on values. -/
theorem attr (h : r.Satisfies onBase onValue) {kind : Kind} {key : String} {attr : Attr}
    (found : r.attribute? kind key = some attr) (v : Value) : onValue (attr.handler v) :=
  (iff_has.1 h).attr found v

/-- A fallback that is looked up satisfies the condition on values. -/
theorem fallback (h : r.Satisfies onBase onValue) {kind : Kind} {handler : ValueHandler}
    (found : r.fallback? kind = some handler) (v : Value) : onValue (handler v) :=
  (iff_has.1 h).fallback found v

/-- An attribute of all kinds that is looked up satisfies the condition on values. -/
theorem universal (h : r.Satisfies onBase onValue) {key : String} {attr : Attr}
    (found : r.universal? key = some attr) (v : Value) : onValue (attr.handler v) :=
  (iff_has.1 h).universal found v

end Satisfies

end Registry

end TextTags
