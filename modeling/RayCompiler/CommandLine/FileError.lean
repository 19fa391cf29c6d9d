namespace RayCompiler

-- Why a file cannot be read or written.
inductive FileError where
  | notFound
  | notDirectory
  | isDirectory
  | notText
  | other (description : String) (code : Nat)
deriving DecidableEq

def FileError.message : FileError → String
  | .notFound => "No such file or directory (os error 2)"
  | .notDirectory => "Not a directory (os error 20)"
  | .isDirectory => "Is a directory (os error 21)"
  | .notText => "stream did not contain valid UTF-8"
  | .other description code => description ++ " (os error " ++ toString code ++ ")"

end RayCompiler
