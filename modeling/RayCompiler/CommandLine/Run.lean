import RayCompiler.CommandLine.FileTree
import RayCompiler.CommandLine.OutputPath
import RayCompiler.Compile
import RayCompiler.Dump.Program
import RayCompiler.Dump.Source

namespace RayCompiler

-- What a run leaves behind besides files.
structure Outcome where
  exit : Nat
  output : String
  log : String
deriving DecidableEq

-- Where files are read and written: on the machine, or in a file tree.
structure FileStore (m : Type → Type) where
  read : String → m (Except FileError ByteArray)
  write : String → ByteArray → m (Except FileError Unit)

def FileTree.store : FileStore (StateM FileTree) where
  read path := do
    return (← get).read path
  write path bytes := do
    match (← get).write path bytes with
    | .error error => return .error error
    | .ok tree =>
      set tree
      return .ok ()

-- What a run leaves to the libraries that the program is built on: what its arguments ask for, and
-- how it is worded that a file cannot be read or written.
structure Conventions where
  invocation : List String → Invocation
  failure : String → FileError → String

namespace CommandLine

-- The text written to the log on the way, and the listing or the error at the end.
structure Build where
  log : String
  result : Except CompileError String

-- Compiles a source and shows what is asked for. Tokens are shown once they are all read and the
-- tree once it is complete, so an error cuts off what comes after it.
def build (dumps : List Representation) (source : Source) : Build :=
  match tokenize source with
  | .error error => ⟨"", .error (.lexical error)⟩
  | .ok tokens =>
    let shown := if dumps.contains .tokens then Dump.tokens source.name tokens ++ "\n" else ""
    match parse tokens with
    | .error error => ⟨shown, .error (.parsing error)⟩
    | .ok program =>
      let tree := if dumps.contains .tree then Dump.program program ++ "\n" else ""
      ⟨shown ++ tree, program.generate.mapError .assembly⟩

-- The text of a file that has to hold UTF-8.
def decode (bytes : ByteArray) : Except FileError String :=
  match String.fromUTF8? bytes with
  | some text => .ok text
  | none => .error .notText

def title : String := "Ray compiler 0.1.0\n"

def usage : String :=
  "Usage: ray [OPTIONS] <INPUT>\n\n" ++
    "  <INPUT>              Source file\n" ++
    "  -o, --output <FILE>  Output file ('-' for stdout), defaults to INPUT with .asm extension\n" ++
    "      --dump <IR>      Print an intermediate representation to stderr: tokens, ast\n" ++
    "  -h, --help           Print help information\n" ++
    "  -V, --version        Print version information\n"

section Conventions

variable (conventions : Conventions)

def readFailure (path : String) (error : FileError) : String :=
  conventions.failure ("Failed to read source file: " ++ path) error

def writeFailure (path : String) (error : FileError) : String :=
  conventions.failure ("Failed to emit to file: " ++ path) error

variable {m : Type → Type} [Monad m]

def runOptions (files : FileStore m) (options : Options) : m Outcome := do
  match (← files.read options.input).bind decode with
  | .error error => return ⟨1, "", readFailure conventions options.input error⟩
  | .ok text =>
    let source : Source := ⟨options.input, text⟩
    let build := build options.dumps source
    match build.result with
    | .error error => return ⟨1, "", build.log ++ error.report source⟩
    | .ok listing =>
      match options.destination with
      | .standardOutput => return ⟨0, listing, build.log⟩
      | .file path =>
        match ← files.write path listing.toUTF8 with
        | .ok () => return ⟨0, "", build.log⟩
        | .error error => return ⟨1, "", build.log ++ writeFailure conventions path error⟩

-- Runs the program on its arguments.
def runWith (files : FileStore m) (arguments : List String) : m Outcome :=
  match conventions.invocation arguments with
  | .wrongUsage => return ⟨2, "", usage⟩
  | .version => return ⟨0, title, ""⟩
  | .help => return ⟨0, title ++ usage, ""⟩
  | .run options => runOptions conventions files options

end Conventions

def failure (context : String) (error : FileError) : String :=
  "Error: " ++ context ++ "\n\nCaused by:\n    " ++ error.message ++ "\n"

-- The conventions of the program itself.
def standard : Conventions := ⟨Invocation.ofArguments, failure⟩

def run {m : Type → Type} [Monad m] : FileStore m → List String → m Outcome := runWith standard

end CommandLine

end RayCompiler
