/-!
Failures with their causes, and the text that reports them.
-/

set_option autoImplicit false

namespace Blueprint

/-- Why something failed: a message, and what it was caused by, the nearest cause first. -/
structure Failure where
  message : String
  causes : List String := []
deriving DecidableEq

namespace Failure

/-- Blanks up to a width. -/
def padding (width used : Nat) : String := String.ofList (List.replicate (width - used) ' ')

/-- A text whose later lines are set in. -/
def setIn (blanks : Nat) (text : String) : String :=
  String.intercalate ("\n" ++ padding blanks 0) (text.splitOn "\n")

/-- Causes in order, numbered when there are several. -/
def causeLines (causes : List String) : List String :=
  match causes with
  | [cause] => ["    " ++ setIn 4 cause]
  | causes => causes.zipIdx.map fun (cause, i) ↦
    padding 5 (toString i).length ++ toString i ++ ": " ++ setIn 7 cause

/-- The message, and below it the causes. -/
def report (f : Failure) : String :=
  if f.causes.isEmpty then f.message
  else f.message ++ "\n\nCaused by:\n" ++ String.intercalate "\n" (causeLines f.causes)

/-- The message and the causes on one line. -/
def line (f : Failure) : String := String.intercalate ": " (f.message :: f.causes)

end Failure

end Blueprint
