import Reclaim.Console.Script

namespace Reclaim

def reason : IO.Error → String
  | .noFileOrDirectory _ code _ => s!"No such file or directory (os error {code})"
  | .permissionDenied _ code _ => s!"Permission denied (os error {code})"
  | .inappropriateType _ code _ => s!"Is a directory (os error {code})"
  | error => toString error

def readAll (stream : IO.FS.Stream) : IO ByteArray := do
  let mut bytes := ByteArray.empty
  let mut more := true
  while more do
    let chunk ← stream.read 65536
    more := ! chunk.isEmpty
    bytes := bytes ++ chunk
  return bytes

def fileContents (name : String) : IO (Except String ByteArray) := do
  try
    return .ok (← IO.FS.readBinFile name)
  catch error =>
    return .error (reason error)

end Reclaim

open Reclaim Reclaim.Console in
def main (arguments : List String) : IO UInt32 := do
  let script? := match Invocation.read arguments with
    | .ok invocation => invocation.script
    | .error _ => none
  let contents ← match script? with
    | some name => fileContents name
    | none => pure (.ok ByteArray.empty)
  let standardInput ← match script? with
    | some _ => pure ByteArray.empty
    | none => readAll (← IO.getStdin)
  let surroundings : Surroundings :=
    { fileContents := fun _ => contents, standardInput, historyProblem := none }
  let transcript := runConsole surroundings ({} : SystemMemory) arguments
  for line in transcript.output do IO.println line
  for line in transcript.errors do IO.eprintln line
  return transcript.exitCode.toUInt32
