import RayCompiler.CommandLine.Options

namespace RayCompiler

namespace CommandLine

-- Drops slashes, and dots that stand alone, from the end of a path written backwards.
def trimPath : List Char → List Char
  | '/' :: rest => trimPath rest
  | '.' :: '/' :: rest => trimPath ('/' :: rest)
  | path => path
termination_by path => path.length

-- The last name of a path, both written backwards.
def lastName (path : List Char) : List Char := (trimPath path).takeWhile (· != '/')

-- The extension of a name, both written backwards. A dot in front of a name begins no extension.
def extension (name : List Char) : List Char :=
  match name.dropWhile (· != '.') with
  | _ :: _ :: _ => name.takeWhile (· != '.')
  | _ => []

-- A name without its extension and the dot before it, both written backwards.
def stem (name : List Char) : List Char :=
  match name.dropWhile (· != '.') with
  | _ :: c :: rest => c :: rest
  | _ => name

-- A path, written backwards, with `asm` as the extension of its last name. A path without a name
-- stays as it is.
def setListingExtension (path : List Char) : String :=
  let name := lastName path
  let directory := (trimPath path).dropWhile (· != '/')
  if name = [] ∨ name = ['.'] ∨ name = ['.', '.'] then String.ofList path.reverse
  else String.ofList (stem name ++ directory).reverse ++ ".asm"

-- The path with `asm` in place of its extension. The old extension is cut off before the new one is
-- set, so that a path such as `..ray`, of which two dots are left, gets none.
def withListingExtension (path : String) : String :=
  let reversed := path.toList.reverse
  setListingExtension (reversed.drop (extension (lastName reversed)).length)

end CommandLine

-- Where a listing goes.
inductive Destination where
  | standardOutput
  | file (path : String)
deriving DecidableEq

def Options.destination (options : Options) : Destination :=
  let path := options.output.getD (CommandLine.withListingExtension options.input)
  if path = "-" then .standardOutput else .file path

end RayCompiler
