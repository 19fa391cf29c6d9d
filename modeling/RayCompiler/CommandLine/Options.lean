namespace RayCompiler

-- What can be shown of a compilation on the way.
inductive Representation where
  | tokens
  | tree
deriving DecidableEq

def Representation.ofName? : String → Option Representation
  | "tokens" => some .tokens
  | "ast" => some .tree
  | _ => none

structure Options where
  input : String
  output : Option String
  dumps : List Representation
deriving DecidableEq

-- What the arguments of the program ask for.
inductive Invocation where
  | wrongUsage
  | version
  | help
  | run (options : Options)
deriving DecidableEq

namespace CommandLine

-- The flags that take a value.
inductive Flag where
  | output
  | dump
deriving DecidableEq

-- What the arguments hold. A flag at which a value is missing counts as an occurrence without value.
structure Gathered where
  input : Option String
  outputs : List (Option String)
  dumps : List (Option String)

def Gathered.empty : Gathered := ⟨none, [], []⟩

def Gathered.add (gathered : Gathered) (flag : Flag) (value : Option String) : Gathered :=
  match flag with
  | .output => { gathered with outputs := gathered.outputs ++ [value] }
  | .dump => { gathered with dumps := gathered.dumps ++ [value] }

-- A flag that still waits for its value does not get one.
def Gathered.settle (gathered : Gathered) : Option Flag → Gathered
  | some flag => gathered.add flag none
  | none => gathered

-- What the occurrences of a flag that can be repeated give together. One that lacks its value adds
-- nothing, but at least one has a value if the flag occurs at all.
def repeatedValues? (values : List (Option String)) : Option (List String) :=
  match values, values.filterMap id with
  | _ :: _, [] => none
  | _, given => some given

-- Judges the arguments as a whole: an input, at most one output, and no flag without a value or with
-- an unknown one.
def Gathered.options? (gathered : Gathered) : Option Options := do
  let input ← gathered.input
  let outputs ← gathered.outputs.mapM id
  let names ← repeatedValues? gathered.dumps
  let dumps ← names.mapM Representation.ofName?
  match outputs with
  | [] => some ⟨input, none, dumps⟩
  | [output] => some ⟨input, some output, dumps⟩
  | _ => none

def Gathered.finish (gathered : Gathered) : Invocation :=
  match gathered.options? with
  | some options => .run options
  | none => .wrongUsage

-- What a single argument is.
inductive Argument where
  | plain
  | inputsOnly
  | flag (flag : Flag) (value : Option String)
  | version
  | help
  | unknown
deriving DecidableEq

-- A flag spelled out, with the value after an equals sign if there is one.
def Argument.ofLong (text : List Char) : Argument :=
  let name := String.ofList (text.takeWhile (· != '='))
  let value := match text.dropWhile (· != '=') with
    | [] => none
    | _ :: value => some (String.ofList value)
  match name, value with
  | "output", value => .flag .output value
  | "dump", value => .flag .dump value
  | "version", none => .version
  | "help", none => .help
  | _, _ => .unknown

-- A flag of one letter. A value may follow at once, with or without an equals sign.
def Argument.ofShort : List Char → Argument
  | ['o'] => .flag .output none
  | 'o' :: '=' :: value => .flag .output (some (String.ofList value))
  | 'o' :: value => .flag .output (some (String.ofList value))
  | 'V' :: _ => .version
  | 'h' :: _ => .help
  | _ => .unknown

-- A single dash is no flag: it can be an input or a value.
def Argument.ofText (text : String) : Argument :=
  match text.toList with
  | ['-'] => .plain
  | ['-', '-'] => .inputsOnly
  | '-' :: '-' :: long => .ofLong long
  | '-' :: short => .ofShort short
  | _ => .plain

-- Arguments after which only inputs can follow.
def readInputs : Gathered → List String → Invocation
  | gathered, [] => gathered.finish
  | gathered, input :: rest =>
    match gathered.input with
    | some _ => .wrongUsage
    | none => readInputs { gathered with input := some input } rest

-- Reads arguments from left to right, where `pending` is a flag that waits for its value. A request
-- for version or help wins at once, and so does an unknown flag or a second input.
def readArguments : Gathered → Option Flag → List String → Invocation
  | gathered, pending, [] => (gathered.settle pending).finish
  | gathered, pending, text :: rest =>
    match Argument.ofText text with
    | .plain =>
      match pending, gathered.input with
      | some flag, _ => readArguments (gathered.add flag (some text)) none rest
      | none, some _ => .wrongUsage
      | none, none => readArguments { gathered with input := some text } none rest
    | .inputsOnly => readInputs (gathered.settle pending) rest
    | .flag flag none => readArguments (gathered.settle pending) (some flag) rest
    | .flag flag (some value) =>
      readArguments ((gathered.settle pending).add flag (some value)) none rest
    | .version => .version
    | .help => .help
    | .unknown => .wrongUsage

end CommandLine

def Invocation.ofArguments (arguments : List String) : Invocation :=
  CommandLine.readArguments .empty none arguments

end RayCompiler
