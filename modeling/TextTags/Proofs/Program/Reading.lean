import TextTags.Proofs.Fill.Shift
import TextTags.Proofs.Program
import TextTags.Proofs.Text.Bytes

/-!
# Reading the input

A session fills the lines of its input one after another, in whatever pieces the input comes. A line
of text is filled as the text on its own is. A line that is no text stops the session, but not
before the lines ahead of it are filled.
-/

namespace TextTags

open Run Text

namespace Program

namespace Session

variable (s : Session)

/-- The session at another place of its input. -/
def placed (readsInput : Bool) (pending : List UInt8) : Session := { s with readsInput, pending }

/-- Whether sessions differ at most in where they stand in their inputs. -/
def Agrees (s t : Session) : Prop := s.placed false [] = t.placed false []

namespace Agrees

variable {s t : Session}

/-- Sessions that agree print the same. -/
theorem out (h : s.Agrees t) : s.out = t.out := by
  have same := congrArg Session.out h
  exact same

/-- Sessions that agree report the same. -/
theorem err (h : s.Agrees t) : s.err = t.err := by
  have same := congrArg Session.err h
  exact same

/-- Sessions that agree end in the same way. -/
theorem exit (h : s.Agrees t) : s.exit? = t.exit? := by
  have same := congrArg Session.exit? h
  exact same

/-- Sessions that agree end with the same code. -/
theorem code (h : s.Agrees t) : s.code = t.code := by rw [Session.code, Session.code, h.exit]

end Agrees

variable (reads : Bool) (pending : List UInt8)

private theorem fill_placed (text : String) :
    (s.placed reads pending).fill text = (s.fill text).placed reads pending := by
  unfold fill
  by_cases stopped : s.exit?.isSome
  · rw [if_pos stopped, if_pos (by exact stopped)]
  · rw [if_neg stopped, if_neg (by exact stopped)]
    have env : (s.placed reads pending).env = s.env := rfl
    have world : (s.placed reads pending).world = s.world := rfl
    rw [env, world]
    cases (s.env.fillString (levels text) text).run s.world <;> rfl

/-- Filling texts does not look at the input. -/
theorem foldl_fill_placed (texts : List String) :
    texts.foldl fill (s.placed reads pending) = (texts.foldl fill s).placed reads pending := by
  induction texts generalizing s with
  | nil => rfl
  | cons text rest ih => rw [List.foldl_cons, fill_placed, ih, List.foldl_cons]

private theorem fillLine_placed (line : List UInt8) :
    (s.placed reads pending).fillLine line = (s.fillLine line).placed reads pending := by
  unfold fillLine
  by_cases stopped : s.exit?.isSome
  · rw [if_pos stopped, if_pos (by exact stopped)]
  · rw [if_neg stopped, if_neg (by exact stopped)]
    cases String.fromUTF8? ⟨line.toArray⟩ with
    | none => rfl
    | some text => exact s.fill_placed reads pending text

private theorem readsInput_fillLine (line : List UInt8) :
    (s.fillLine line).readsInput = s.readsInput := by
  change ((s.placed s.readsInput s.pending).fillLine line).readsInput = _
  rw [fillLine_placed]
  rfl

/-- What is kept of the input is written over by what is read next. -/
theorem receiveAfter_placed (read input : List UInt8) :
    (s.placed s.readsInput pending).receiveAfter read input = s.receiveAfter read input := by
  induction input generalizing s read with
  | nil => rfl
  | cons byte rest ih =>
    rw [receiveAfter, receiveAfter]
    split
    · rw [fillLine_placed, ← readsInput_fillLine, ih]
    · exact ih s (byte :: read)

/-- Input that comes in two pieces is received as it is in one. -/
theorem receiveAfter_append (read first second : List UInt8) :
    s.receiveAfter read (first ++ second) = (s.receiveAfter read first).receive second := by
  induction first generalizing s read with
  | nil =>
    -- Between the pieces the present line is kept, and taken up again.
    change _ = (s.placed s.readsInput read.reverse).receiveAfter read.reverse.reverse second
    rw [receiveAfter_placed, List.reverse_reverse, List.nil_append]
  | cons byte rest ih =>
    rw [List.cons_append, receiveAfter, receiveAfter]
    split
    · exact ih _ []
    · exact ih s (byte :: read)

/-- The part of a line that has come is kept. -/
theorem receiveAfter_unbroken (read : List UInt8) {line : List UInt8} (unbroken : newline ∉ line) :
    s.receiveAfter read line = s.placed s.readsInput (read.reverse ++ line) := by
  induction line generalizing read with
  | nil =>
    rw [List.append_nil]
    rfl
  | cons byte rest ih =>
    obtain ⟨other, unbroken⟩ := not_or.1 (List.mem_cons.not.1 unbroken)
    rw [receiveAfter, if_neg (Ne.symm other), ih _ unbroken, List.reverse_cons, List.append_assoc]
    rfl

/-- A line is filled when it ends. -/
theorem receiveAfter_line {line : List UInt8} (unbroken : newline ∉ line) (rest : List UInt8) :
    s.receiveAfter [] (line ++ newline :: rest) =
      (s.fillLine (withoutReturn line)).receiveAfter [] rest := by
  rw [receiveAfter_append, receiveAfter_unbroken _ _ unbroken, receive, receiveAfter, if_pos rfl]
  change ((s.placed s.readsInput line).fillLine
    (withoutReturn line.reverse.reverse)).receiveAfter _ _ = _
  rw [fillLine_placed, ← readsInput_fillLine s, receiveAfter_placed, List.reverse_reverse]

/-- Whether a text can be a line of the input: no line ends within it, and its end is not taken for
a carriage return that belongs to the end of the line. -/
structure IsLine (text : String) : Prop where
  unbroken : '\n' ∉ text.toList
  kept : text.toList.getLast? ≠ some '\r'

instance (text : String) : Decidable (IsLine text) :=
  decidable_of_iff ('\n' ∉ text.toList ∧ text.toList.getLast? ≠ some '\r')
    ⟨fun h ↦ ⟨h.1, h.2⟩, fun h ↦ ⟨h.unbroken, h.kept⟩⟩

/-- The texts as lines of the input. -/
def inputOf (texts : List String) : List UInt8 := texts.flatMap fun text ↦ bytes text ++ [newline]

/-- The input of texts ends in a newline, if it has any byte. -/
theorem getLast?_inputOf (texts : List String) :
    ∀ byte ∈ (inputOf texts).getLast?, byte = newline := by
  obtain rfl | ⟨init, text, rfl⟩ := texts.eq_nil_or_concat
  · nofun
  · rw [List.concat_eq_append, inputOf, List.flatMap_append, List.flatMap_singleton,
      ← List.append_assoc, List.getLast?_concat]
    rintro _ ⟨⟩
    rfl

private theorem fillLine_bytes (text : String) : s.fillLine (bytes text) = s.fill text := by
  unfold fillLine
  split
  · next stopped => rw [fill, if_pos stopped]
  · rw [fromUTF8?_eq_some_iff.2 rfl]

private theorem readsInput_fill (text : String) : (s.fill text).readsInput = s.readsInput := by
  rw [← fillLine_bytes, readsInput_fillLine]

private theorem withoutReturn_bytes {text : String} (line : IsLine text) :
    withoutReturn (bytes text) = bytes text :=
  if_neg fun last ↦ line.kept (getLast?_of_getLast?_bytes last (by decide))

/-- The lines of the input are filled as the texts that they are. -/
theorem receiveAfter_inputOf {texts : List String} (lines : ∀ text ∈ texts, IsLine text) :
    s.receiveAfter [] (inputOf texts) = (texts.foldl fill s).placed s.readsInput [] := by
  induction texts generalizing s with
  | nil => rfl
  | cons text rest ih =>
    obtain ⟨line, lines⟩ := List.forall_mem_cons.1 lines
    have unbroken : newline ∉ bytes text := fun mem ↦
      line.unbroken (mem_of_mem_bytes mem (by decide))
    have input : inputOf (text :: rest) = bytes text ++ newline :: inputOf rest := by
      rw [inputOf, List.flatMap_cons, List.append_assoc]
      rfl
    rw [input, receiveAfter_line _ unbroken, withoutReturn_bytes line, fillLine_bytes, ih _ lines,
      readsInput_fill, List.foldl_cons]

/-- A session that has ended fills no more texts. -/
theorem foldl_fill_of_stopped {s : Session} (stopped : s.exit?.isSome) (texts : List String) :
    texts.foldl fill s = s := by
  induction texts with
  | nil => rfl
  | cons text rest ih => rw [List.foldl_cons, fill, if_pos stopped, ih]

private theorem fillLine_of_stopped {s : Session} (stopped : s.exit?.isSome) (line : List UInt8) :
    s.fillLine line = s := if_pos stopped

/-- A session that has stopped writes nothing more. -/
theorem receiveAfter_of_stopped {s : Session} (stopped : s.exit?.isSome) (read input : List UInt8) :
    ∃ pending, s.receiveAfter read input = s.placed s.readsInput pending := by
  induction input generalizing read with
  | nil => exact ⟨_, rfl⟩
  | cons byte rest ih =>
    rw [receiveAfter]
    split
    · rw [fillLine_of_stopped stopped]
      exact ih []
    · exact ih (byte :: read)

private theorem finish_of_stopped {s : Session} (stopped : s.exit?.isSome) :
    ∃ pending, s.finish = s.placed s.readsInput pending := by
  unfold finish
  split
  · exact ⟨s.pending, rfl⟩
  · rw [fillLine_of_stopped stopped]
    exact ⟨[], rfl⟩

/-! ## Input that is no text -/

private theorem fromUTF8?_withoutReturn {line : List UInt8}
    (unread : String.fromUTF8? ⟨line.toArray⟩ = none) :
    String.fromUTF8? ⟨(withoutReturn line).toArray⟩ = none := by
  unfold withoutReturn
  split
  · next last =>
    -- A text without its carriage return would be a text with it.
    refine Option.eq_none_iff_forall_ne_some.2 fun text read ↦ ?_
    have whole : bytes (text ++ "\r") = line := by
      rw [bytes_append, fromUTF8?_eq_some_iff.1 read]
      exact List.dropLast_append_getLast? _ last
    rw [fromUTF8?_eq_some_iff.2 whole] at unread
    contradiction
  · exact unread

/-- Whether a session goes on, or has stopped at input that is no text. -/
def Orderly (s : Session) : Prop := s.exit? = none ∨ s.exit? = some badInput

/-- What a session comes to at a line that is no text: nothing is written but why it stops. -/
structure Refused (s ended : Session) : Prop where
  out : ended.out = s.out
  exit : ended.exit? = some badInput
  err : s.exit? = none → ended.err = s.err ++ Session.line (notice notTextMessage)

private theorem Refused.placed {s ended : Session} (h : Refused s ended) :
    Refused s (ended.placed reads pending) := ⟨h.out, h.exit, h.err⟩

private theorem Refused.stopped {s ended : Session} (h : Refused s ended) : ended.exit?.isSome := by
  rw [h.exit]
  rfl

private theorem Orderly.fillLine_refused {s : Session} (orderly : s.Orderly) {line : List UInt8}
    (unread : String.fromUTF8? ⟨line.toArray⟩ = none) : Refused s (s.fillLine line) := by
  rcases orderly with running | stopped
  · have refused : s.fillLine line = s.refuse := by
      rw [fillLine, running, unread]
      rfl
    rw [refused]
    exact ⟨rfl, rfl, fun _ ↦ rfl⟩
  · rw [fillLine_of_stopped (by rw [stopped]; rfl)]
    exact ⟨rfl, stopped, fun running ↦ absurd (running.symm.trans stopped) nofun⟩

/-- A line that is no text ends the reading, whether it has an end or is the last, and whatever
follows. -/
theorem Orderly.finish_refused {s : Session} (orderly : s.Orderly) {line : List UInt8}
    (unread : String.fromUTF8? ⟨line.toArray⟩ = none) (unbroken : newline ∉ line)
    {rest : List UInt8} (ends : ∀ byte ∈ rest.head?, byte = newline) :
    Refused s (s.receiveAfter [] (line ++ rest)).finish := by
  cases rest with
  | nil =>
    have given : ¬line.isEmpty := by
      rw [List.isEmpty_iff]
      rintro rfl
      have empty : String.fromUTF8? ⟨([] : List UInt8).toArray⟩ = some "" :=
        fromUTF8?_eq_some_iff.2 rfl
      exact absurd (unread.symm.trans empty) nofun
    have last : (s.placed s.readsInput line).finish = (s.fillLine line).placed s.readsInput [] := by
      rw [finish, if_neg (by exact given)]
      change ({ (s.placed s.readsInput line).fillLine line with pending := [] } : Session) = _
      rw [fillLine_placed]
      rfl
    rw [List.append_nil, receiveAfter_unbroken _ _ unbroken, List.reverse_nil, List.nil_append,
      last]
    exact (orderly.fillLine_refused unread).placed _ _
  | cons byte rest =>
    obtain rfl := ends byte rfl
    have refused := orderly.fillLine_refused (fromUTF8?_withoutReturn unread)
    rw [receiveAfter_line _ unbroken]
    obtain ⟨pending, read⟩ := receiveAfter_of_stopped refused.stopped [] rest
    obtain ⟨left, finished⟩ := finish_of_stopped (refused.placed _ pending).stopped
    rw [read, finished]
    exact (refused.placed _ _).placed _ _

/-- After the end of a line nothing is kept. -/
theorem pending_receiveAfter {input : List UInt8} (ends : ∀ byte ∈ input.getLast?, byte = newline) :
    (s.receiveAfter [] input).pending = [] := by
  obtain rfl | ⟨init, byte, rfl⟩ := input.eq_nil_or_concat
  · rfl
  · rw [List.concat_eq_append] at ends ⊢
    obtain rfl := ends byte List.getLast?_concat
    rw [receiveAfter_append, receive, receiveAfter, if_pos rfl]
    rfl

/-- A session with nothing pending has nothing left to fill. -/
theorem finish_of_pending {s : Session} (hno : s.pending = []) : s.finish = s :=
  if_pos (by rw [hno]; rfl)

/-! ## Sessions that are sound -/

namespace Sound

variable {s : Session}

private theorem exit?_fill (h : s.Sound) (text : String) : (s.fill text).exit? = s.exit? := by
  have kept : (s.fill text).exit? = s.exit? ∨ (s.fill text).exit? = some brokenDown := by
    unfold Session.fill
    split
    · exact .inl rfl
    · split
      · exact .inl rfl
      · exact .inr rfl
  exact kept.resolve_right (h.fill text).running

private theorem orderly_fillLine (h : s.Sound) (orderly : s.Orderly) (line : List UInt8) :
    (s.fillLine line).Orderly := by
  cases read : String.fromUTF8? ⟨line.toArray⟩ with
  | none => exact .inr (orderly.fillLine_refused read).exit
  | some text =>
    rw [← fromUTF8?_eq_some_iff.1 read, fillLine_bytes, Orderly, h.exit?_fill]
    exact orderly

/-- A session stays orderly while it receives input. -/
theorem orderly_receiveAfter (h : s.Sound) (orderly : s.Orderly) (read input : List UInt8) :
    (s.receiveAfter read input).Orderly := by
  induction input generalizing s read with
  | nil => exact orderly
  | cons byte rest ih =>
    rw [Session.receiveAfter]
    split
    · exact ih (h.fillLine _) (h.orderly_fillLine orderly _) []
    · exact ih h orderly (byte :: read)

/-- Each text gives a line of its own, and texts give their lines in order. -/
theorem out_foldl_fill (h : s.Sound) (running : s.exit? = none) {filled : String → String}
    (fills : ∀ text, (s.env.fillString (levels text) text).result {} = .ok (filled text))
    (texts : List String) :
    (texts.foldl Session.fill s).out =
        s.out ++ String.join (texts.map fun text ↦ Session.line (filled text)) ∧
      (texts.foldl Session.fill s).exit? = none := by
  induction texts generalizing s with
  | nil => exact ⟨(String.append_empty).symm, running⟩
  | cons text rest ih =>
    have given : (s.env.fillString (levels text) text).result s.world = .ok (filled text) :=
      ((s.env.fillString_steady _ _).result_eq h.cache Cache.faithful_empty).trans (fills text)
    obtain ⟨w, ends⟩ := eq_ok_of_result given
    have step : s.fill text =
        { s.settle w with out := (s.settle w).out ++ Session.line (filled text) } := by
      rw [Session.fill, if_neg (by rw [running]; nofun), EStateM.run, ends]
    obtain ⟨out, exit⟩ := ih (h.fill text) ((h.exit?_fill text).trans running)
      (by rw [step]; exact fills)
    refine ⟨?_, exit⟩
    rw [List.foldl_cons, out, step, List.map_cons, String.join_cons, String.append_assoc]
    rfl

end Sound

end Session

end Program

end TextTags
