import TextTags.Limit
import TextTags.Value.Basic

/-!
# Failures

Why a tag has no value. No failure leaves the filling of a text: each ends in a substitute and a
report.
-/

namespace TextTags

open Text

/-- Why a tag has no value. -/
inductive Failure
  /-- The brackets of the tag do not match. -/
  | scan (message : String)
  /-- No base has the root's name, or the base of that name gave nothing. -/
  | unresolvedBase (name : String) (registered : Bool)
  /-- The value so far knows no such attribute. -/
  | unresolvedAttribute (name : String) (kind : Kind) (index : Nat)
  /-- The attribute needs a parameter. -/
  | argumentRequired (name : String)
  /-- The time limit has passed. -/
  | timeout (limit : Limit)
  /-- A handler broke down. -/
  | workerFault (message : String)
deriving DecidableEq

namespace Failure

/-- The message for a failure. -/
def message : Failure → String
  | scan message => message
  | unresolvedBase name registered =>
    "tag-base '" ++ name ++ "' " ++ (if registered then "returned nothing" else "has no handler")
  | unresolvedAttribute name kind index =>
    "unrecognized attribute '" ++ name ++ "' on " ++ kind.longName ++
      " (segment " ++ .ofList (natDigits index) ++ ")"
  | argumentRequired name => "attribute '" ++ name ++ "' requires a [parameter]"
  | timeout limit => "tag filling timed out after " ++ limit.text
  | workerFault message => "tag worker failed: " ++ message

/-- Whether a failure comes from running under guard and not from the tag. -/
def isBounded : Failure → Bool
  | timeout _ => true
  | workerFault _ => true
  | _ => false

end Failure

end TextTags
