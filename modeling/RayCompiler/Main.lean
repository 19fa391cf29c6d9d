import RayCompiler.CommandLine.Run

namespace RayCompiler

-- The positive form of an error number, which the machine may give with its sign turned.
def errorNumber (code : UInt32) : Nat :=
  if code < 0x80000000 then code.toNat else (0 - code).toNat

def FileError.ofError : IO.Error → FileError
  | .noFileOrDirectory _ _ _ => .notFound
  | .inappropriateType _ code _ => if errorNumber code = 20 then .notDirectory else .isDirectory
  | .permissionDenied _ _ _ => .other "Permission denied" 13
  | error => .other (toString error) 0

def attempt {α : Type} (act : IO α) : IO (Except FileError α) := do
  match ← act.toBaseIO with
  | .ok value => return .ok value
  | .error error => return .error (.ofError error)

def machineStore : FileStore IO where
  read path := attempt (IO.FS.readBinFile path)
  write path bytes := attempt (IO.FS.writeBinFile path bytes)

end RayCompiler

def main (arguments : List String) : IO UInt32 := do
  let outcome ← RayCompiler.CommandLine.run RayCompiler.machineStore arguments
  IO.eprint outcome.log
  IO.print outcome.output
  return outcome.exit.toUInt32
