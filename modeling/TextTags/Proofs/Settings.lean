import TextTags.Arguments
import TextTags.Proofs.Limit

/-!
# What settings are accepted

Whatever a file of settings says and whatever stands on the command line: the time limit that comes
of them is a finite number of seconds, and the number of workers is positive and below `2 ^ 64`. A
pool is made for up to `2 ^ 61 - 1` workers, and a limit for less than `2 ^ 64` seconds.
-/

namespace TextTags

namespace Settings

/-- What is accepted without complaint. -/
structure Accepted (s : Settings) : Prop where
  timeout : s.timeout.isFinite
  positive : 0 < s.workers
  bounded : s.workers < 2 ^ 64

/-- The settings without a file are accepted. -/
theorem accepted_default : ({} : Settings).Accepted := ⟨rfl, by decide, by decide⟩

private theorem isFinite_of_seconds? {value : String} {x : Float} (h : seconds? value = some x) :
    x.isFinite :=
  (Option.filter_eq_some_iff.1 h).2

private theorem bounds_of_workers? {value : String} {n : Nat} (h : workers? value = some n) :
    0 < n ∧ n < 2 ^ 64 := by
  simpa using (Option.filter_eq_some_iff.1 h).2

variable {s s' : Settings} {key value : String}

private theorem exists_of_read {α : Type} {read : Option α} {set : α → Settings}
    {defect : SettingDefect} (h : (match read with
      | some a => .ok (set a)
      | none => .error defect) = (.ok s' : Except SettingDefect Settings)) :
    ∃ a, read = some a ∧ set a = s' := by
  cases read with
  | none => contradiction
  | some a => exact ⟨a, rfl, Except.ok.inj h⟩

/-- What settings become when a key is set: one thing is changed. -/
inductive Sets (s : Settings) (key value : String) : Settings → Prop
  | definition {name : List Char} (named : definitionName? key = some name) (given : name ≠ []) :
    Sets s key value
      { s with definitions := define (.ofList (Text.lowerChars name)) value s.definitions }
  | timeout {x : Float} (named : key = "tags.timeout") (read : seconds? value = some x) :
    Sets s key value { s with timeout := x }
  | timeBox {b : Bool} (named : key = "tags.timeout_when_silent") (read : bool? value = some b) :
    Sets s key value { s with timeBoxWhenSilent := b }
  | workers {n : Nat} (named : key = "tags.workers") (read : workers? value = some n) :
    Sets s key value { s with workers := n }
  | debug {b : Bool} (named : key = "debug.enabled") (read : bool? value = some b) :
    Sets s key value { s with debug := b }
  | showErrors {b : Bool} (named : key = "debug.show_errors") (read : bool? value = some b) :
    Sets s key value { s with showErrors := b }

/-- Setting a key changes one thing. -/
theorem sets_of_setKey (set : s.setKey key value = .ok s') : s.Sets key value s' := by
  unfold Settings.setKey at set
  dsimp only at set
  split at set
  · next named =>
    obtain ⟨x, read, rfl⟩ := exists_of_read set
    exact .timeout named read
  · split at set
    · next named =>
      obtain ⟨b, read, rfl⟩ := exists_of_read set
      exact .timeBox named read
    · split at set
      · next named =>
        obtain ⟨n, read, rfl⟩ := exists_of_read set
        exact .workers named read
      · split at set
        · next named =>
          obtain ⟨b, read, rfl⟩ := exists_of_read set
          exact .debug named read
        · split at set
          · next named =>
            obtain ⟨b, read, rfl⟩ := exists_of_read set
            exact .showErrors named read
          · contradiction

/-- Setting a key or a definition changes one thing. -/
theorem sets_of_set (set : s.set key value = .ok s') : s.Sets key value s' := by
  unfold Settings.set at set
  split at set
  · contradiction
  · next name given named =>
    cases set
    exact .definition named given
  · exact sets_of_setKey set

private theorem Accepted.sets (h : s.Accepted) (sets : s.Sets key value s') : s'.Accepted := by
  cases sets with
  | timeout _ read => exact { h with timeout := isFinite_of_seconds? read }
  | workers _ read =>
    obtain ⟨positive, bounded⟩ := bounds_of_workers? read
    exact { h with positive, bounded }
  | definition | timeBox | debug | showErrors => exact { h with }

private theorem Accepted.applyLine {line : List Char} (h : s.Accepted)
    (set : s.applyLine line = .ok s') :
    s'.Accepted := by
  unfold Settings.applyLine at set
  split at set
  · contradiction
  · exact h.sets (sets_of_set set)

/-- A line that is refused leaves the settings as they were. -/
theorem Accepted.applyLines (h : s.Accepted) (number : Nat) (lines : List (List Char)) :
    (s.applyLines number lines).1.Accepted := by
  induction lines generalizing s number with
  | nil => exact h
  | cons line rest ih =>
    rw [Settings.applyLines]
    dsimp only
    split
    · exact ih h _
    · split
      · next next set => exact ih (h.applyLine set) _
      · exact ih h _

/-- The settings that are read from a text are accepted. -/
theorem accepted_ofText (text : String) : (ofText text).1.Accepted :=
  accepted_default.applyLines _ _

end Settings

namespace Arguments

/-- Whether the time limit of the command line, if there is one, is finite. -/
def Accepted (a : Arguments) : Prop := ∀ x ∈ a.timeout, x.isFinite

variable {a b : Arguments} {rest left : List String}

private theorem Accepted.setTimeout {value : String} (set : a.setTimeout value = .ok b) :
    b.Accepted := by
  unfold Arguments.setTimeout at set
  split at set
  · next x read =>
    cases set
    rintro _ ⟨⟩
    exact Settings.isFinite_of_seconds? read
  · contradiction

private theorem Accepted.options {letters : List Char} (h : a.Accepted)
    (read : a.options rest letters = .ok (b, left)) : b.Accepted := by
  induction letters generalizing a with
  | nil =>
    cases read
    exact h
  | cons option more ih =>
    unfold Arguments.options at read
    split at read
    · exact ih (a := { a with debug := true }) h read
    · split at read
      · exact ih (a := { a with verbose := true }) h read
      · split at read
        · exact ih (a := { a with quiet := true }) h read
        · split at read
          · cases read
            exact h
          · split at read
            · cases taken : takeValue option more rest with
              | error defect => simp [taken, bind, Except.bind] at read
              | ok value =>
                cases set : a.setTimeout value.1 with
                | error defect => simp [taken, set, bind, Except.bind] at read
                | ok next =>
                  simp only [taken, set, bind, Except.bind, pure, Except.pure, Except.ok.injEq,
                    Prod.mk.injEq] at read
                  exact read.1 ▸ Accepted.setTimeout set
            · split at read
              · cases taken : takeValue option more rest with
                | error defect => simp [taken, bind, Except.bind] at read
                | ok value =>
                  simp only [taken, bind, Except.bind, pure, Except.pure, Except.ok.injEq,
                    Prod.mk.injEq] at read
                  exact read.1 ▸ h
              · contradiction

private theorem Accepted.more {args : List String} (h : a.Accepted) (read : a.more args = .ok b) :
    b.Accepted := by
  fun_induction Arguments.more a args with
  | case1 a =>
    cases read
    exact h
  | case2 a rest =>
    cases read
    exact h
  | case3 a arg rest _ _ ih => exact ih h read
  | case4 a arg rest _ _ next left eq ih => exact ih (h.options eq) read
  | case5 a arg rest _ _ defect eq => contradiction

private theorem more_of_options {arg : String} {next : Arguments} (dash : hasDash arg)
    (marks : arg ≠ "--")
    (single : arg ≠ "-") (read : a.options rest (arg.toList.drop 1) = .ok (next, left)) :
    a.more (arg :: rest) = next.more left := by
  rw [Arguments.more, if_neg marks, if_neg (by simp [dash, single])]
  split
  · next eq =>
    cases eq.symm.trans read
    rfl
  · next eq => cases eq.symm.trans read

private theorem more_of_text {text : String} (plain : hasDash text = false) :
    a.more (text :: rest) = { a with texts := a.texts ++ [text] }.more rest := by
  have marks : text ≠ "--" := by
    rintro rfl
    contradiction
  rw [Arguments.more, if_neg marks, if_pos (by simp [plain])]

/-- A command line with one text. -/
theorem parse_text {text : String} (plain : hasDash text = false) :
    parse [text] = .ok { texts := [text] } := by
  rw [parse, more_of_text plain, Arguments.more]
  rfl

/-- A command line with a time limit and one text. -/
theorem parse_timeout {value text : String} {x : Float}
    (seconds : Settings.seconds? value = some x) (plain : hasDash text = false) :
    parse ["-t", value, text] = .ok { timeout := some x, texts := [text] } := by
  have read :
      ({} : Arguments).options [value, text] ['t'] = .ok ({ timeout := some x }, [text]) := by
    simp [Arguments.options, takeValue, Arguments.setTimeout, seconds, bind, Except.bind, pure,
      Except.pure]
  exact (more_of_options (by decide) (by decide) (by decide) read).trans <|
    (more_of_text plain).trans (by rw [Arguments.more]; rfl)

/-- The time limit of a command line that is read is accepted. -/
theorem accepted_parse {args : List String} (h : parse args = .ok a) : a.Accepted :=
  Accepted.more (a := {}) nofun h

/-- Settings with those of the command line over them. -/
theorem Accepted.override (h : a.Accepted) {s : Settings} (accepted : s.Accepted) :
    (a.override s).Accepted := by
  refine { accepted with timeout := ?_ }
  change (a.timeout.getD s.timeout).isFinite
  cases given : a.timeout with
  | none => exact accepted.timeout
  | some x => exact h x given

end Arguments

end TextTags
