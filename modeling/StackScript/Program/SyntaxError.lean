import StackScript.Token.Cursor

/-!
# Syntax errors

What keeps a source text from being a program, and where.
-/

namespace StackScript

/-- How deep the parser goes.  The trees that it builds can be taller. -/
def maxNesting : Nat := 128

/-- The most arguments of a call, and the most parameters of a function. -/
def maxArguments : Nat := 255

/-- Why a text is no program.  `found` is the token that stood in the way, or
nothing at the end of the input. -/
inductive SyntaxFault where
  /-- The text does not even fall into tokens. -/
  | lexical (fault : LexFault)
  | expected (what : String) (found : Option Token)
  | unmatchedBrace
  | tooDeep (what : String) (found : Option Token)
  | tooManyParameters (function : String) (count : Nat)
  | tooManyArguments (count : Nat)
  | invalidTarget
  deriving DecidableEq, Repr

namespace SyntaxFault

def foundText : Option Token -> String
  | none => ", found end of input"
  | some t => ", found '" ++ t.text ++ "'"

def message : SyntaxFault -> String
  | lexical fault => fault.message
  | expected what found => "expected " ++ what ++ foundText found
  | unmatchedBrace => "unmatched '\x7d'" ++ foundText (some (.symbol .rightBrace))
  | tooDeep what found =>
      what ++ " nested too deeply (limit " ++ toString maxNesting ++ ")" ++ foundText found
  | tooManyParameters function count =>
      "function '" ++ function ++ "' has " ++ toString count ++ " parameters, at most "
        ++ toString maxArguments ++ " are allowed"
  | tooManyArguments count =>
      "call has " ++ toString count ++ " arguments, at most " ++ toString maxArguments
        ++ " are allowed"
  | invalidTarget => "invalid assignment target"

end SyntaxFault

structure SyntaxError where
  span : Span
  fault : SyntaxFault
  deriving DecidableEq, Repr

namespace SyntaxError

def diagnostic (e : SyntaxError) : Diagnostic where
  span := e.span
  message := e.fault.message

/-- A text that does not fall into tokens has this one error. -/
def ofLexError (e : LexError) : SyntaxError where
  span := e.span
  fault := .lexical e.fault

end SyntaxError
end StackScript
