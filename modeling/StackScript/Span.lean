/-!
# Positions in a source text

Lines and columns count from one, and a column counts characters.  A position
is moved by the text that is read over: `after` is the only rule, so a position
always says how much was read before it.
-/

namespace StackScript

structure Span where
  line : Nat
  column : Nat
  deriving DecidableEq, Repr, Inhabited

namespace Span

def start : Span where
  line := 1
  column := 1

def next (span : Span) (c : Char) : Span :=
  if c = '\n' then
    { line := span.line + 1, column := 1 }
  else
    { span with column := span.column + 1 }

def after (span : Span) (text : List Char) : Span :=
  text.foldl next span

def text (span : Span) : String :=
  toString span.line ++ ":" ++ toString span.column

@[simp] theorem after_nil (span : Span) : span.after [] = span := rfl

@[simp] theorem after_cons (span : Span) (c : Char) (rest : List Char) :
    span.after (c :: rest) = (span.next c).after rest := rfl

theorem after_append (span : Span) (a b : List Char) :
    span.after (a ++ b) = (span.after a).after b := by
  simp [after]

end Span
end StackScript
