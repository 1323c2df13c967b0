/-!
# Arguments of the command line

Two positional arguments, flags that stand anywhere among them, and one option
with a value.  Arguments are read from the left, and the first that settles the
matter does: a mistake, or a request for the version or for help.  After `--`
every argument is positional.
-/

namespace StackScript

structure Invocation where
  input : String
  output : String
  /-- Print the listing. -/
  listing : Bool := false
  /-- Print the tokens and stop. -/
  tokens : Bool := false
  /-- Print the outline and stop. -/
  outline : Bool := false
  noColor : Bool := false
  /-- Show the tokens as source text. -/
  sourceText : Bool := false
  /-- Where to write the structured form, if anywhere. -/
  structuredPath : Option String := none
  verbose : Bool := false
  deriving DecidableEq, Repr

inductive Request where
  | run (invocation : Invocation)
  | version
  | help
  /-- The arguments make no sense. -/
  | mistake
  deriving DecidableEq, Repr

/-- The flags that a run takes at most once each. -/
inductive Flag where
  | listing
  | tokens
  | outline
  | noColor
  | sourceText
  | verbose
  deriving DecidableEq, Repr

inductive Switch where
  | flag (flag : Flag)
  | structuredPath
  | version
  | help
  deriving DecidableEq, Repr

namespace Switch

def ofLong? : String -> Option Switch
  | "asm" => some (.flag .listing)
  | "tokens" => some (.flag .tokens)
  | "ast" => some (.flag .outline)
  | "no-color" => some (.flag .noColor)
  | "pretty" => some (.flag .sourceText)
  | "verbose" => some (.flag .verbose)
  | "emit-ir" => some .structuredPath
  | "version" => some .version
  | "help" => some .help
  | _ => none

def ofLetter? : Char -> Option Switch
  | 'v' => some (.flag .verbose)
  | 'V' => some .version
  | 'h' => some .help
  | _ => none

end Switch

structure ArgumentState where
  positional : List String := []
  flags : List Flag := []
  structuredPath : Option String := none
  deriving DecidableEq, Repr

namespace ArgumentState

/-- A positional argument, of which there are two, neither of them empty. -/
def addPositional (s : ArgumentState) (arg : String) : Except Request ArgumentState :=
  if s.positional.length < 2 && arg ≠ "" then
    .ok { s with positional := s.positional ++ [arg] }
  else
    .error .mistake

def addFlag (s : ArgumentState) (flag : Flag) : Except Request ArgumentState :=
  if flag ∈ s.flags then
    .error .mistake
  else
    .ok { s with flags := flag :: s.flags }

def addPath (s : ArgumentState) (path : String) : Except Request ArgumentState :=
  if s.structuredPath.isSome || path = "" then
    .error .mistake
  else
    .ok { s with structuredPath := some path }

/-- Letters behind a single dash, one switch each. -/
def addLetters (s : ArgumentState) : List Char -> Except Request ArgumentState
  | [] => .ok s
  | c :: rest =>
      match Switch.ofLetter? c with
      | some (.flag flag) => do
          let s ← s.addFlag flag
          s.addLetters rest
      | some .version => .error .version
      | some .help => .error .help
      | _ => .error .mistake

def addAll (s : ArgumentState) : List String -> Except Request ArgumentState
  | [] => .ok s
  | arg :: rest => do
      let s ← s.addPositional arg
      s.addAll rest

def request (s : ArgumentState) : Request :=
  match s.positional with
  | [input, output] =>
      .run
        { input := input
          output := output
          listing := .listing ∈ s.flags
          tokens := .tokens ∈ s.flags
          outline := .outline ∈ s.flags
          noColor := .noColor ∈ s.flags
          sourceText := .sourceText ∈ s.flags
          structuredPath := s.structuredPath
          verbose := .verbose ∈ s.flags }
  | _ => .mistake

end ArgumentState

inductive ArgumentForm where
  | positional
  /-- The mark behind which all arguments are positional. -/
  | separator
  | long (name : String) (value : Option String)
  | letters (letters : List Char)
  deriving DecidableEq, Repr

/-- The form of an argument.  A single dash is positional. -/
def ArgumentForm.ofString (arg : String) : ArgumentForm :=
  match arg.toList with
  | ['-', '-'] => separator
  | '-' :: '-' :: rest =>
      match rest.dropWhile (· != '=') with
      | [] => long (String.ofList rest) none
      | _ :: value =>
          long (String.ofList (rest.takeWhile (· != '='))) (some (String.ofList value))
  | '-' :: c :: rest => letters (c :: rest)
  | _ => positional

namespace Request

def readFrom (s : ArgumentState) : List String -> Except Request ArgumentState
  | [] => .ok s
  | arg :: rest =>
      match ArgumentForm.ofString arg with
      | .positional => do
          let s ← s.addPositional arg
          readFrom s rest
      | .separator => s.addAll rest
      | .letters letters => do
          let s ← s.addLetters letters
          readFrom s rest
      | .long name value =>
          match Switch.ofLong? name, value with
          | some (.flag flag), none => do
              let s ← s.addFlag flag
              readFrom s rest
          | some .version, none => .error .version
          | some .help, none => .error .help
          | some .structuredPath, some path => do
              let s ← s.addPath path
              readFrom s rest
          | some .structuredPath, none =>
              match rest with
              | path :: rest =>
                  if ArgumentForm.ofString path = .positional then do
                    let s ← s.addPath path
                    readFrom s rest
                  else
                    .error .mistake
              | [] => .error .mistake
          | _, _ => .error .mistake

def ofArguments (arguments : List String) : Request :=
  match readFrom {} arguments with
  | .ok s => s.request
  | .error request => request

end Request
end StackScript
