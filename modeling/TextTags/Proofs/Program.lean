import TextTags.Program.Session
import TextTags.Proofs.Fill.Faultless
import TextTags.Proofs.Settings

/-!
# Accepted settings at work

Two numbers of the settings are used outside the place where they are read: the number of workers
when the pool is made, the time limit whenever a chain is resolved. Each is accepted beyond the
bound of what it is used for. Within these bounds the program never breaks down, whatever it reads.
-/

namespace TextTags

/-- Whether the pool and the time limit of accepted settings can be made. -/
structure Settings.Usable (s : Settings) : Prop where
  workers : s.workers ≤ Pool.maxSlots
  timeout : ¬ Limit.tooManySeconds ≤ s.timeout

/-- A pool is made for every number of workers up to the greatest number of slots. -/
theorem Pool.isSome_create?_iff {α : Type} (workers : Nat) :
    (Pool.create? workers : Option (Pool α)).isSome ↔ workers ≤ Pool.maxSlots := by
  have slots : 1 ≤ Pool.maxSlots := by decide
  unfold create?
  dsimp only
  split
  · next fits => exact ⟨fun _ ↦ by omega, fun _ ↦ rfl⟩
  · next large => exact ⟨nofun, fun fits ↦ absurd (Nat.max_le.2 ⟨fits, slots⟩) large⟩

namespace Settings.Accepted

variable {s : Settings}

private theorem timeLimit_iff (h : s.Accepted) :
    s.context.timeLimit = .unrepresentable ↔ Limit.tooManySeconds ≤ s.timeout :=
  (TimeLimit.ofSeconds_eq_unrepresentable_iff s.timeout).trans (and_iff_right h.timeout)

end Settings.Accepted

namespace Program

/-- A run of the program that can go on: only the core is registered, the time limit can be
represented, and nothing has broken down. -/
structure Session.Sound (s : Session) : Prop where
  core : s.env.registry = .core
  limit : s.env.context.timeLimit ≠ .unrepresentable
  cache : s.world.cache.Faithful
  running : s.exit? ≠ some brokenDown

namespace Session.Sound

variable {s : Session}

/-- A session stays sound when a text is filled. -/
theorem fill (h : s.Sound) (text : String) : (s.fill text).Sound := by
  obtain ⟨filled, w, ends, faithful⟩ := Env.fillString_ok h.limit
    (h.core ▸ Registry.core_fillsNothing) (Nat.lt_succ_self text.length) h.cache
  unfold Session.fill
  split
  · exact h
  · rw [EStateM.run, levels, ends]
    exact ⟨h.core, h.limit, faithful, h.running⟩

private theorem refuse (h : s.Sound) : s.refuse.Sound :=
  ⟨h.core, h.limit, h.cache, fun eq ↦ absurd (Option.some.inj eq) (by decide)⟩

/-- A session stays sound when a line is filled. -/
theorem fillLine (h : s.Sound) (bytes : List UInt8) : (s.fillLine bytes).Sound := by
  unfold Session.fillLine
  split
  · exact h
  · split
    · exact h.fill _
    · exact h.refuse

private theorem receiveAfter (h : s.Sound) (read bytes : List UInt8) :
    (s.receiveAfter read bytes).Sound := by
  induction bytes generalizing s read with
  | nil => exact ⟨h.core, h.limit, h.cache, h.running⟩
  | cons byte rest ih =>
    rw [Session.receiveAfter]
    split
    · exact ih (h.fillLine _) []
    · exact ih h (byte :: read)

private theorem finish (h : s.Sound) : s.finish.Sound := by
  unfold Session.finish
  split
  · exact h
  · obtain ⟨core, limit, cache, running⟩ := h.fillLine s.pending
    exact ⟨core, limit, cache, running⟩

private theorem foldl_fill (h : s.Sound) (texts : List String) :
    (texts.foldl Session.fill s).Sound := by
  induction texts generalizing s with
  | nil => exact h
  | cons text rest ih => exact ih (h.fill text)

end Session.Sound

/-- With usable settings a run of the program starts sound. -/
theorem prepare_sound {a : Arguments} {around : Surroundings}
    (accepted : (a.override (settings around a.settings).1).Accepted)
    (usable : (a.override (settings around a.settings).1).Usable) : (prepare a around).Sound := by
  have limit : (a.override (settings around a.settings).1).context.timeLimit ≠ .unrepresentable :=
    fun large ↦ usable.timeout (accepted.timeLimit_iff.1 large)
  unfold prepare
  dsimp only
  split
  · refine Session.Sound.foldl_fill ?_ _
    exact { core := rfl, limit, cache := Cache.faithful_empty, running := nofun }
  · next hno =>
    have made := (Pool.isSome_create?_iff (α := Unit) _).2 usable.workers
    rw [hno] at made
    contradiction

/-- The settings of a file and of the command line are accepted only with a finite time limit and
with a positive number of workers. They are of use exactly where the limit is below `2 ^ 64` seconds
and the workers are at most as many as can be counted: then no text breaks down, and neither does
the program, on any input. -/
theorem accepted_usable {args : List String} {a : Arguments} (parsed : Arguments.parse args = .ok a)
    (source : String) :
    let s := a.override (Settings.ofText source).1
    s.Accepted ∧
      ((Pool.create? s.workers : Option (Pool Unit)).isSome ↔ s.workers ≤ Pool.maxSlots) ∧
      (s.context.timeLimit = .unrepresentable ↔ Limit.tooManySeconds ≤ s.timeout) ∧
      (s.Usable →
        (∀ (env : Env) (levels : Nat) (text : String) (w : World) (message : String),
          env.context.timeout = s.timeout →
            (env.fillString levels text).result w ≠ .error (.fault message)) ∧
        ∀ (around : Surroundings) (input : List UInt8),
          (settings around a.settings).1 = (Settings.ofText source).1 →
            (run args around input).exit? ≠ some brokenDown) := by
  intro s
  have accepted : s.Accepted :=
    (Arguments.accepted_parse parsed).override (Settings.accepted_ofText source)
  refine ⟨accepted, Pool.isSome_create?_iff _, accepted.timeLimit_iff, fun usable ↦ ⟨?_, ?_⟩⟩
  · intro env levels text w message same broken
    have limit : env.context.timeLimit ≠ .unrepresentable := by
      rw [Context.timeLimit, same]
      exact fun large ↦ usable.timeout (accepted.timeLimit_iff.1 large)
    cases ends : env.fillString levels text w with
    | ok filled u =>
      rw [Run.result_of_ok ends] at broken
      contradiction
    | error stop u =>
      rw [Run.result_of_error ends,
        Env.fillString_faultless limit levels text w stop u ends] at broken
      cases broken
  · intro around input found
    have opened : (start args around).Sound := by
      rw [start, parsed]
      exact prepare_sound (found ▸ accepted) (found ▸ usable)
    unfold run
    dsimp only
    split
    · exact (opened.receiveAfter _ _).finish.running
    · exact opened.running

/-- A file of settings wherever one is looked for. -/
def Surroundings.ofFile (source : String) : Surroundings where
  read _ := .text source

/-- With settings inside the bounds from a file and the command line, the program fills its text. -/
theorem accepted_usable_inBounds :
    let source := "tags.timeout: 1e9\ntags.workers: 64\n"
    let args := ["-t", "2.5", "<element[a]>"]
    ∃ a, Arguments.parse args = .ok a ∧ (a.override (Settings.ofText source).1).Usable ∧
      (Pool.create? (a.override (Settings.ofText source).1).workers : Option (Pool Unit)).isSome ∧
      (run args (.ofFile source) []).exit? ≠ some brokenDown := by
  intro source args
  have parsed : Arguments.parse args = .ok { timeout := some 2.5, texts := ["<element[a]>"] } :=
    Arguments.parse_timeout (by decide +kernel) (by decide)
  have usable : (Arguments.override { timeout := some 2.5, texts := ["<element[a]>"] }
      (Settings.ofText source).1).Usable := ⟨by decide +kernel, by decide +kernel⟩
  obtain ⟨-, pool, -, fills⟩ := accepted_usable parsed source
  exact ⟨_, parsed, usable, pool.2 usable.workers, (fills usable).2 _ _ rfl⟩

/-- Settings past the bounds are accepted without complaint, and the program breaks down: at the
first tag with a time limit of `1e300` seconds, and at once with `2 ^ 64 - 1` workers. -/
theorem run_pastBounds :
    Arguments.parse ["-t", "1e300", "<element[a]>"] =
        .ok { timeout := some 1e300, texts := ["<element[a]>"] } ∧
      (run ["-t", "1e300", "<element[a]>"] (.ofFile "") []).exit? = some brokenDown ∧
      (Settings.ofText "tags.workers: 18446744073709551615").2 = [] ∧
      (run ["<element[a]>"] (.ofFile "tags.workers: 18446744073709551615") []).exit? =
        some brokenDown := by
  have parsed : Arguments.parse ["-t", "1e300", "<element[a]>"] =
      .ok { timeout := some 1e300, texts := ["<element[a]>"] } :=
    Arguments.parse_timeout (by decide +kernel) (by decide)
  have plain : Arguments.parse ["<element[a]>"] = .ok { texts := ["<element[a]>"] } :=
    Arguments.parse_text (by decide)
  refine ⟨parsed, ?_, by decide +kernel, ?_⟩
  · rw [run, start, parsed]
    decide +kernel
  · rw [run, start, plain]
    decide +kernel

end Program

end TextTags
