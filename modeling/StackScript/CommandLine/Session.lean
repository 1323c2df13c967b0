import StackScript.Bytecode.Binary
import StackScript.Bytecode.Structured
import StackScript.CommandLine.Arguments
import StackScript.Compiler
import StackScript.Program.Outline
import StackScript.Token.Table

/-!
# Sessions

A run of the command line as a chain of requests to the world around it: texts
to print, files to read and to write, and a status at the end.  What a session
asks for next depends on the answers, and on nothing else.
-/

namespace StackScript

inductive FileFault where
  | notFound
  | notDirectory
  | isDirectory
  | other (detail : String)
  deriving DecidableEq, Repr

def FileFault.message : FileFault -> String
  | notFound => "No such file or directory (os error 2)"
  | notDirectory => "Not a directory (os error 20)"
  | isDirectory => "Is a directory (os error 21)"
  | other detail => detail

inductive Session where
  | exit (status : UInt8)
  | print (text : String) (next : Session)
  | printError (text : String) (next : Session)
  | read (path : String) (next : Except FileFault (List UInt8) -> Session)
  | write (path : String) (bytes : List UInt8) (next : Except FileFault Unit -> Session)

namespace Session

def success : Session := exit 0

def failure (e : Error) : Session :=
  printError (e.message ++ "\n") (exit 1)

def writeThen (path : String) (bytes : List UInt8) (next : Session) : Session :=
  write path bytes fun
    | .ok () => next
    | .error fault => failure (.file fault.message)

/-- Writes the compiled program, and its structured form where that is asked
for. -/
def writeProgram (options : Invocation) (program : Bytecode) : Session :=
  match program.encode with
  | .error e => failure (.ofAssembleError e)
  | .ok bytes =>
      writeThen options.output bytes <|
        match options.structuredPath with
        | none => success
        | some path => writeThen path (Structured.encode program) success

def showTokens (options : Invocation) (source : String) : Session :=
  match tokenize source with
  | .ok tokens =>
      let table : TokenTable := { colored := !options.noColor, sourceText := options.sourceText }
      print (table.render tokens) success
  | .error e => failure (.syntaxErrors [.ofLexError e])

def showOutline (source : String) : Session :=
  match Program.parse source with
  | .ok program => print program.outline.render success
  | .error errors => failure (.syntaxErrors errors)

def compileSource (options : Invocation) (source : String) : Session :=
  match compile source Builtin.standard with
  | .error e => failure e
  | .ok compilation =>
      let rest := writeProgram options compilation.bytecode
      if options.listing then
        print compilation.listing rest
      else
        rest

def ofSource (options : Invocation) (source : String) : Session :=
  if options.tokens then
    showTokens options source
  else if options.outline then
    showOutline source
  else
    compileSource options source

def ofInvocation (options : Invocation) : Session :=
  read options.input fun
    | .error fault => failure (.file fault.message)
    | .ok bytes =>
        match ofUtf8? bytes with
        | some source => ofSource options source
        | none => failure (.file "stream did not contain valid UTF-8")

def versionText : String := "simplec 0.1.0\n"

def usageText : String :=
  "Usage: simplec [OPTIONS] <INPUT> <OUTPUT>\n"

def helpText : String :=
  "Compile a script to bytecode\n\n" ++ usageText
    ++ "\nArguments:\n"
    ++ "  <INPUT>   Source file to compile\n"
    ++ "  <OUTPUT>  Where to write the bytecode\n"
    ++ "\nOptions:\n"
    ++ "      --asm             Print the assembly listing\n"
    ++ "      --tokens          Dump tokens and exit\n"
    ++ "      --ast             Print the AST and exit\n"
    ++ "      --no-color        Disable colors in the token dump\n"
    ++ "      --pretty          Show source text instead of Debug form in the token dump\n"
    ++ "      --emit-ir <PATH>  Also write the structured bytecode (postcard) to this path\n"
    ++ "  -v, --verbose         Enable debug logging\n"
    ++ "  -h, --help            Print help\n"
    ++ "  -V, --version         Print version\n"

def ofRequest : Request -> Session
  | .run options => ofInvocation options
  | .version => print versionText success
  | .help => print helpText success
  | .mistake =>
      printError
        ("error: the arguments could not be read\n\n" ++ usageText
          ++ "\nFor more information, try '--help'.\n")
        (exit 2)

def ofArguments (arguments : List String) : Session :=
  ofRequest (Request.ofArguments arguments)

end Session
end StackScript
