import TextTags.Proofs.Arguments
import TextTags.Proofs.Program.Reading
import TextTags.Proofs.Registry.Tables

/-!
# Lines of the input

The program fills the lines of its input as it fills the texts of its command line: both go through
the same session, one after another.
-/

namespace TextTags

open Run

/-- Whether arguments are nothing but options, each with its value. -/
structure Arguments.AreOptions (opts : List String) : Prop where
  complete : ∀ option, parse opts ≠ .error (.missingArgument option)
  textless : ∀ a, parse opts = .ok a → a.texts = [] ∧ "--" ∉ opts

namespace Arguments.AreOptions

variable {opts : List String}

private theorem of_parse {a : Arguments} (read : parse opts = .ok a) (textless : a.texts = [])
    (unmarked : "--" ∉ opts) : AreOptions opts where
  complete _ missing := absurd (read.symm.trans missing) nofun
  textless _ read' := Except.ok.inj (read.symm.trans read') ▸ ⟨textless, unmarked⟩

/-- After options and two dashes there are texts only. -/
theorem parse_texts (h : AreOptions opts) (texts : List String) :
    parse (opts ++ "--" :: texts) = (parse opts).map fun a ↦ { a with texts } := by
  cases read : parse opts with
  | error defect =>
    have found (option : Char) : defect ≠ .missingArgument option := fun missing ↦
      h.complete option (read.trans (congrArg _ missing))
    exact more_append_of_defect read found _
  | ok a =>
    obtain ⟨textless, unmarked⟩ := h.textless a read
    have parted : Parted opts ("--" :: texts) := .inr (.inl ⟨"--", rfl, by decide⟩)
    rw [parse, more_append read unmarked parted, more, if_pos rfl, textless]
    rfl

end Arguments.AreOptions

private theorem Settings.accepted_settings (around : Program.Surroundings)
    (choice : SettingsChoice) :
    (Program.settings around choice).1.Accepted := by
  have ofFile (path : String) (content : Program.FileContent) :
      (Program.settingsOf path content).1.Accepted := by
    cases content with
    | text source => exact accepted_ofText source
    | unreadable => exact accepted_default
    | absent => exact accepted_default
  unfold Program.settings
  split
  · exact accepted_default
  · exact ofFile _ _
  · split
    · exact ofFile _ _
    · exact accepted_default

namespace Program

/-- The settings of a run: those that are found, and those of the command line over them. -/
def chosen (a : Arguments) (around : Surroundings) : Settings :=
  a.override (settings around a.settings).1

/-- The session of a run before its first text: it has stopped if no pool can be made. -/
def opening (a : Arguments) (around : Surroundings) : Session where
  env := env (chosen a around) around
  remarks := a.debug || a.verbose
  err := String.join ((settings around a.settings).2.map Session.line)
  exit? :=
    match (Pool.create? (chosen a around).workers : Option (Pool Unit)) with
    | some _ => none
    | none => some brokenDown

/-- The texts of the command line are filled in the session that its options open. -/
theorem prepare_eq (a : Arguments) (around : Surroundings) : prepare a around =
    (a.texts.foldl Session.fill (opening a around)).placed a.texts.isEmpty [] := by
  obtain ⟨first, opens⟩ : ∃ s, s = opening a around := ⟨_, rfl⟩
  rw [← opens, ← Session.foldl_fill_placed]
  unfold prepare
  dsimp only
  split
  · next made =>
    rw [opens, opening, chosen, made]
    rfl
  · next unmade =>
    rw [Session.foldl_fill_of_stopped, opens, opening, chosen, unmade]
    · rfl
    · rw [opens, opening, chosen, unmade]
      rfl

private theorem start_of_ok {opts : List String} {a : Arguments}
    (read : Arguments.parse opts = .ok a) (textless : a.texts = []) (around : Surroundings) :
    start opts around = (opening a around).placed true [] := by
  unfold start
  rw [read]
  dsimp only
  rw [prepare_eq, textless]
  rfl

private theorem start_of_defect {opts : List String} {defect : ArgumentDefect}
    (read : Arguments.parse opts = .error defect) (around : Surroundings) :
    start opts around = misused defect around := by
  rw [start, read]

section

variable {opts : List String} (options : Arguments.AreOptions opts) (around : Surroundings)

include options

/-- A run for options alone has stopped at once, or reads its input from the start. -/
theorem start_options : (start opts around).pending = [] ∧
    ((start opts around).readsInput ∨ (start opts around).exit?.isSome) := by
  cases read : Arguments.parse opts with
  | ok a =>
    rw [start_of_ok read (options.textless a read).1]
    exact ⟨rfl, .inl rfl⟩
  | error defect =>
    rw [start_of_defect read]
    exact ⟨rfl, .inr rfl⟩

/-- Texts of the command line are filled after what the options ask for is prepared. -/
theorem run_texts {texts : List String} (given : texts ≠ []) (input : List UInt8) :
    (run (opts ++ "--" :: texts) around input).Agrees
      (texts.foldl Session.fill (start opts around)) := by
  have started : start (opts ++ "--" :: texts) around =
      (texts.foldl Session.fill (start opts around)).placed false [] := by
    have parsed := options.parse_texts texts
    cases read : Arguments.parse opts with
    | ok a =>
      rw [read] at parsed
      rw [start_of_ok read (options.textless a read).1, Session.foldl_fill_placed, start, parsed]
      change prepare { a with texts } around = _
      rw [prepare_eq]
      change (texts.foldl Session.fill (opening a around)).placed texts.isEmpty [] = _
      rw [List.isEmpty_eq_false_iff.2 given]
      rfl
    | error defect =>
      rw [read] at parsed
      rw [start_of_defect read, Session.foldl_fill_of_stopped rfl]
      exact start_of_defect parsed around
  rw [run, started, if_neg (by exact Bool.false_ne_true)]
  rfl

/-- Input that ends in the end of a line is received, and nothing is left of it. -/
theorem run_input {input : List UInt8} (ends : ∀ byte ∈ input.getLast?, byte = Session.newline) :
    (run opts around input).Agrees ((start opts around).receiveAfter [] input) := by
  obtain ⟨fresh, reads⟩ := start_options options around
  unfold run
  dsimp only
  split
  · rw [Session.receive, fresh, List.reverse_nil,
      Session.finish_of_pending (Session.pending_receiveAfter _ ends)]
    rfl
  · next skips =>
    obtain ⟨pending, read⟩ := Session.receiveAfter_of_stopped (reads.resolve_left skips) [] input
    rw [read]
    rfl

/-- Texts as lines of the input are filled after what the options ask for is prepared. -/
theorem run_inputOf {texts : List String} (lines : ∀ text ∈ texts, Session.IsLine text) :
    (run opts around (Session.inputOf texts)).Agrees
      (texts.foldl Session.fill (start opts around)) := by
  refine (run_input options around (Session.getLast?_inputOf texts)).trans ?_
  rw [Session.receiveAfter_inputOf _ lines]
  rfl

variable {a : Arguments} (read : Arguments.parse opts = .ok a) (usable : (chosen a around).Usable)

include read usable

private theorem start_running : (start opts around).Sound ∧ (start opts around).exit? = none := by
  constructor
  · have accepted := (Arguments.accepted_parse read).override
      (Settings.accepted_settings around a.settings)
    rw [start, read]
    exact prepare_sound accepted usable
  · obtain ⟨pool, made⟩ := Option.isSome_iff_exists.1 <|
      (Pool.isSome_create?_iff (α := Unit) _).2 usable.workers
    rw [start_of_ok read (options.textless a read).1]
    change (opening a around).exit? = none
    rw [opening, made]

/-- With usable settings each text gives a line, the same one whatever other texts there are. -/
theorem exists_filled : ∃ filled : String → String,
    (∀ text, ((env (chosen a around) around).fillString (Session.levels text) text).result {} =
      .ok (filled text)) ∧
    ∀ texts, (∀ text ∈ texts, Session.IsLine text) →
      (run opts around (Session.inputOf texts)).out =
          String.join (texts.map fun text ↦ Session.line (filled text)) ∧
        (run opts around (Session.inputOf texts)).code = 0 := by
  obtain ⟨sound, running⟩ := start_running options around read usable
  have started := start_of_ok read (options.textless a read).1 around
  have limit : (env (chosen a around) around).context.timeLimit ≠ .unrepresentable := by
    have limit := sound.limit
    rw [started] at limit
    exact limit
  have ends (text : String) : ∃ filled,
      ((env (chosen a around) around).fillString (Session.levels text) text).result {} =
        .ok filled := by
    obtain ⟨filled, w, eq, -⟩ := Env.fillString_ok limit Registry.core_fillsNothing
      (Nat.lt_succ_self text.length) (w := {}) Cache.faithful_empty
    exact ⟨filled, result_of_ok eq⟩
  choose filled fills using ends
  refine ⟨filled, fills, fun texts lines ↦ ?_⟩
  have same := run_inputOf options around lines
  obtain ⟨out, exit⟩ := sound.out_foldl_fill running (by rw [started]; exact fills) texts
  have hno : (start opts around).out = "" := by
    rw [started]
    rfl
  rw [hno, String.empty_append] at out
  refine ⟨same.out.trans out, ?_⟩
  rw [same.code, Session.code, exit]
  rfl

/-- A line of the input that is no text ends the run after the lines before it. -/
theorem run_refused {before line rest : List UInt8}
    (closed : ∀ byte ∈ before.getLast?, byte = Session.newline)
    (unread : String.fromUTF8? ⟨line.toArray⟩ = none) (unbroken : Session.newline ∉ line)
    (ends : ∀ byte ∈ rest.head?, byte = Session.newline) :
    Session.Refused (run opts around before) (run opts around (before ++ (line ++ rest))) := by
  obtain ⟨sound, running⟩ := start_running options around read usable
  obtain ⟨fresh, -⟩ := start_options options around
  have reads : (start opts around).readsInput := by
    rw [start_of_ok read (options.textless a read).1]
    rfl
  obtain ⟨first, received⟩ : ∃ s, s = (start opts around).receiveAfter [] before := ⟨_, rfl⟩
  have kept : first.pending = [] := received ▸ Session.pending_receiveAfter _ closed
  have orderly : first.Orderly := received ▸ sound.orderly_receiveAfter (.inl running) _ _
  have whole : run opts around (before ++ (line ++ rest)) =
      (first.receiveAfter [] (line ++ rest)).finish := by
    rw [run, if_pos reads, Session.receive, fresh, List.reverse_nil, Session.receiveAfter_append,
      ← received, Session.receive, kept, List.reverse_nil]
  have begun : (run opts around before).Agrees first := received ▸ run_input options around closed
  obtain ⟨out, exit, err⟩ := orderly.finish_refused unread unbroken ends
  rw [whole]
  exact ⟨by rw [out, begun.out], exit, fun running ↦ by rw [err (begun.exit ▸ running), begun.err]⟩

end

/-- Texts as lines of the input give the same as the texts on the command line after two dashes: the
same lines in the output, the same reports and the same exit code. With usable settings a text is
filled to the same line wherever it stands, and these lines are written one after another; and a
line of the input that is no text ends the run when the lines before it have been filled. -/
theorem run_lines {opts : List String} (options : Arguments.AreOptions opts)
    (around : Surroundings) :
    (∀ texts, texts ≠ [] → (∀ text ∈ texts, Session.IsLine text) → ∀ input,
      let lines := run opts around (Session.inputOf texts)
      let arguments := run (opts ++ "--" :: texts) around input
      lines.out = arguments.out ∧ lines.err = arguments.err ∧ lines.code = arguments.code) ∧
    ∀ a, Arguments.parse opts = .ok a →
      (chosen a around).Usable →
      (∃ filled : String → String,
        (∀ text, ((env (chosen a around) around).fillString (Session.levels text) text).result {} =
          .ok (filled text)) ∧
        ∀ texts, (∀ text ∈ texts, Session.IsLine text) →
          (run opts around (Session.inputOf texts)).out =
              String.join (texts.map fun text ↦ Session.line (filled text)) ∧
            (run opts around (Session.inputOf texts)).code = 0) ∧
      ∀ before line rest, (∀ byte ∈ before.getLast?, byte = Session.newline) →
        String.fromUTF8? ⟨line.toArray⟩ = none → Session.newline ∉ line →
        (∀ byte ∈ rest.head?, byte = Session.newline) →
        Session.Refused (run opts around before) (run opts around (before ++ (line ++ rest))) := by
  constructor
  · intro texts given lines input
    have same : (run opts around (Session.inputOf texts)).Agrees
        (run (opts ++ "--" :: texts) around input) :=
      (run_inputOf options around lines).trans (run_texts options around given input).symm
    exact ⟨same.out, same.err, same.code⟩
  · intro a read usable
    exact ⟨exists_filled options around read usable,
      fun _ _ _ ↦ run_refused options around read usable⟩

/-- A name in other letter case, an empty text, a tag that fails, a text again, and then a byte that
begins no character. -/
theorem run_lines_mixed :
    let around := Surroundings.ofFile "definitions.a: b"
    let texts := ["<[A]>", "", "<none>", "<[A]>"]
    let ended := run ["-d"] around (Session.inputOf texts ++ [255, 10, 97])
    (run ["-d"] around (Session.inputOf texts)).out = "b\n\n<none>\nb\n" ∧
      (run ["-d"] around (Session.inputOf texts)).err =
        (run (["-d", "--"] ++ texts) around []).err ∧
      ended.out = "b\n\n<none>\nb\n" ∧ ended.code = badInput := by
  intro around texts ended
  have read : Arguments.parse ["-d"] = .ok { debug := true } := by
    rw [Arguments.parse, Arguments.more_of_dash (by decide) (by decide)]
    change Arguments.more _ [] = _
    rw [Arguments.more]
  have options : Arguments.AreOptions ["-d"] := .of_parse read rfl (by decide)
  have usable : (chosen { debug := true } around).Usable := ⟨by decide +kernel, by decide +kernel⟩
  have lines : ∀ text ∈ texts, Session.IsLine text := by decide
  obtain ⟨same, usual⟩ := run_lines options around
  obtain ⟨out, err, -⟩ := same texts (by decide) lines []
  obtain ⟨-, refused⟩ := usual _ read usable
  obtain ⟨kept, exit, -⟩ := refused (Session.inputOf texts) [255] [10, 97]
    (Session.getLast?_inputOf texts) (by decide +kernel) (by decide) (by rintro _ ⟨⟩; rfl)
  have parsed := options.parse_texts texts
  rw [read] at parsed
  have written : (run (["-d"] ++ "--" :: texts) around []).out = "b\n\n<none>\nb\n" := by
    rw [run, start, parsed]
    simp only [prepare, env, Registry.core_eq_tables]
    decide +kernel
  refine ⟨out.trans written, err, (kept.trans out).trans written, ?_⟩
  rw [Session.code]
  exact congrArg (·.getD 0) exit

/-- Under a time limit that is accepted and cannot be represented, the run breaks down at the first
tag, before it comes to what is no text. -/
theorem run_lines_pastBounds :
    ¬ ∀ (opts : List String) (around : Surroundings) (before line rest : List UInt8),
      Arguments.AreOptions opts → (∀ byte ∈ before.getLast?, byte = Session.newline) →
      String.fromUTF8? ⟨line.toArray⟩ = none → Session.newline ∉ line →
      (∀ byte ∈ rest.head?, byte = Session.newline) →
      (run opts around (before ++ (line ++ rest))).out = (run opts around before).out ∧
        (run opts around (before ++ (line ++ rest))).code = badInput := by
  intro claim
  have seconds : Settings.seconds? "1e300" = some 1e300 := by decide +kernel
  have limit : ({} : Arguments).options [] ['t', '1', 'e', '3', '0', '0'] =
      .ok ({ timeout := some 1e300 }, []) := by
    have value : String.ofList ['1', 'e', '3', '0', '0'] = "1e300" := rfl
    simp [Arguments.options, Arguments.takeValue, Arguments.setTimeout, value, seconds, bind,
      Except.bind, pure, Except.pure]
  have read : Arguments.parse ["-t1e300"] = .ok { timeout := some 1e300 } := by
    rw [Arguments.parse, Arguments.more_of_dash (by decide) (by decide)]
    change ({} : Arguments).options [] ['t', '1', 'e', '3', '0', '0'] >>= _ = _
    rw [limit]
    change Arguments.more _ [] = _
    rw [Arguments.more]
  have options : Arguments.AreOptions ["-t1e300"] := .of_parse read rfl (by decide)
  have broken : (run ["-t1e300"] (.ofFile "")
      (Session.inputOf ["<element[a]>"] ++ ([255] ++ [10]))).code = brokenDown := by
    rw [run, start, read]
    decide +kernel
  obtain ⟨-, code⟩ := claim ["-t1e300"] (.ofFile "") (Session.inputOf ["<element[a]>"]) [255] [10]
    options (Session.getLast?_inputOf _) (by decide +kernel) (by decide) (by rintro _ ⟨⟩; rfl)
  exact absurd (broken.symm.trans code) (by decide)

end Program

end TextTags
