import TextTags.Element
import TextTags.Registry.Basic
import TextTags.Time.Pattern

/-!
# Attributes of durations and times
-/

namespace TextTags.Core

open Handler

/-- A handler for durations alone. -/
def onDuration (f : Duration → Attempt Value) : ValueHandler
  | .duration d => f d
  | _ => .done none

/-- A handler for times alone. -/
def onTime (f : Time → Attempt Value) : ValueHandler
  | .time t => f t
  | _ => .done none

/-- An attribute of durations without a parameter. -/
def durationPlain (names : List String) (f : Duration → Value) : Registration :=
  .attributes .duration names .none (onDuration fun d => pure (f d))

/-- An attribute of durations whose parameter is a duration. -/
def durationWith (name : String) (f : Duration → Duration → Value) : Registration :=
  .attributes .duration [name] .required (onDuration fun d => do
    return f d (← .paramDuration 0))

/-- The count of a unit of so many seconds in a duration. -/
def inUnits (unit : Float) (d : Duration) : Value := .ofFloat (d.seconds / unit)

/-- A comparison of the seconds of two durations. -/
def durationComparison (test : Float → Float → Bool) (a b : Duration) : Value :=
  .ofBool (test a.seconds b.seconds)

/-- The attributes of durations. -/
def durationAttributes : List Registration :=
  [ durationPlain ["in_years", "years"] (inUnits Duration.year),
    durationPlain ["in_weeks", "weeks"] (inUnits Duration.week),
    durationPlain ["in_days", "days"] (inUnits Duration.day),
    durationPlain ["in_hours", "hours"] (inUnits Duration.hour),
    durationPlain ["in_minutes", "minutes"] (inUnits Duration.minute),
    durationPlain ["in_seconds", "seconds"] (inUnits 1.0),
    durationPlain ["in_milliseconds", "milliseconds"] fun d => .ofFloat (d.seconds * 1000.0),
    durationPlain ["in_ticks", "ticks"] fun d => .ofInt d.ticks,
    durationWith "add" fun a b => .duration ⟨a.seconds + b.seconds⟩,
    durationWith "sub" fun a b => .duration ⟨a.seconds - b.seconds⟩,
    durationWith "is_more_than" (durationComparison fun x y => x > y),
    durationWith "is_less_than" (durationComparison fun x y => x < y),
    durationWith "is_more_than_or_equal_to" (durationComparison fun x y => x ≥ y),
    durationWith "is_less_than_or_equal_to" (durationComparison fun x y => x ≤ y),
    durationPlain ["time"] fun d => .time ⟨Int64.ofInt d.millis⟩,
    durationPlain ["formatted", "value"] fun d => .element (d.formatted false),
    durationPlain ["formatted_words"] fun d => .element (d.formatted true) ]

/-- A number of a time, for times inside the range of the calendar. -/
def timePart (name : String) (f : CivilTime → Int) : Registration :=
  .attributes .time [name] .none (onTime fun t => .ofOption (t.civil?.map fun c => .ofInt (f c)))

/-- An attribute of times whose parameter is a duration. -/
def timeWithSpan (name : String) (f : Time → Duration → Value) : Registration :=
  .attributes .time [name] .required (onTime fun t => do
    return f t (← .paramDuration 0))

/-- An attribute of times whose parameter is a time. -/
def timeWithTime (name : String) (f : Time → Time → Option Value) : Registration :=
  .attributes .time [name] .required (onTime fun t => do
    let other ← .paramTime 0
    .ofOption (f t other))

/-- The breakdown at a pattern that is read and cannot be shown. -/
def unprintableFault : String := "a Display implementation returned an error unexpectedly: Error"

/-- A time shown by the pattern that the parameter is. -/
def formatTime : Registration :=
  .attributes .time ["format"] .required (onTime fun t => do
    let pattern ← .paramText 0
    match t.format pattern with
    | .text s => pure (.element s)
    | .rejected => failure
    | .unprintable => .of (.fault unprintableFault))

/-- The attributes of times. -/
def timeAttributes : List Registration :=
  [ .attributes .time ["epoch_millis"] .none
      (onTime fun t => pure (.ofInt t.millis.toInt)),
    timePart "year" fun c => c.date.year,
    timePart "month" fun c => c.date.month,
    timePart "day" fun c => c.date.day,
    timePart "hour" fun c => c.hour,
    timePart "minute" fun c => c.minute,
    timePart "second" fun c => c.second,
    timeWithSpan "add" fun t d => .time (t.plus d),
    timeWithSpan "sub" fun t d => .time (t.plus ⟨-d.seconds⟩),
    timeWithTime "is_after" fun t other => some (.ofBool (other.millis < t.millis)),
    timeWithTime "is_before" fun t other => some (.ofBool (t.millis < other.millis)),
    timeWithTime "duration_since" fun t other => (t.since? other).map .duration,
    formatTime ]

end TextTags.Core
