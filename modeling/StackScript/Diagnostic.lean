import StackScript.Span

/-!
# Diagnostics

A message about a place in a source text.
-/

namespace StackScript

structure Diagnostic where
  span : Span
  message : String
  deriving DecidableEq, Repr

namespace Diagnostic

def text (d : Diagnostic) : String :=
  d.span.text ++ ": " ++ d.message

/-- One line for each fault of a source that cannot be read. -/
def report (faults : List Diagnostic) : String :=
  "\n".intercalate (faults.map fun d => "syntax error at " ++ d.text)

end Diagnostic
end StackScript
