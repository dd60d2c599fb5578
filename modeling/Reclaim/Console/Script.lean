import Reclaim.Console.Invocation
import Reclaim.Console.Session
import Reclaim.Text.Lines

namespace Reclaim.Console

structure Transcript where
  output : Array String := #[]
  errors : Array String := #[]
  exitCode : Nat := 0

namespace Transcript

def complain (transcript : Transcript) (line : String) : Transcript :=
  { transcript with errors := transcript.errors.push line }

def print (transcript : Transcript) (lines : List String) : Transcript :=
  { transcript with output := transcript.output ++ lines }

def terminate (transcript : Transcript) (error : ConsoleError) : Transcript :=
  { transcript.complain ("Terminated: " ++ error.message) with exitCode := 1 }

def abort (transcript : Transcript) (fault : Fault) : Transcript :=
  { transcript.complain (fault.message Ref.address) with exitCode := 101 }

end Transcript

variable {μ : Type} [RawMemory μ]

/-- Executes lines. Each comes with what is put in front of an error in it, and a line may be one
    that could not be read. -/
def runLines (session : Session μ) (transcript : Transcript) :
    List (String × Except ConsoleError String) → Transcript
  | [] => transcript
  | (_, .error error) :: _ => transcript.terminate error
  | (context, .ok line) :: rest =>
    match session.execute line with
    | .error fault _ => transcript.abort fault
    | .ok (.ok lines) session => runLines session (transcript.print lines) rest
    | .ok (.error error) session =>
      if error.isRecoverable then
        runLines session (transcript.complain (context ++ "error: " ++ error.message)) rest
      else transcript.terminate error

def notText : String := "stream did not contain valid UTF-8"

def scriptLines (name : String) (contents : String) : List (String × Except ConsoleError String) :=
  (Text.lines contents).zipIdx.map fun (line, index) => (s!"{name}:{index + 1}: ", .ok line)

/-- The lines of the standard input, up to the first that is not text. Line ends are blanks. -/
def inputLines (bytes : List UInt8) : List (String × Except ConsoleError String) :=
  (cut bytes).map fun line =>
    match String.fromUTF8? ⟨line.toArray⟩ with
    | some line => ("", .ok line)
    | none => ("", .error (.input notText))
where
  cut : List UInt8 → List (List UInt8)
    | [] => []
    | byte :: rest =>
      if byte = 10 then [byte] :: cut rest
      else match cut rest with
        | [] => [[byte]]
        | line :: lines => (byte :: line) :: lines

structure Surroundings where
  fileContents : String → Except String ByteArray
  standardInput : ByteArray
  historyProblem : Option String

def runScript (surroundings : Surroundings) (session : Session μ) (name : String) : Transcript :=
  match surroundings.fileContents name with
  | .error reason => ({} : Transcript).terminate (.file reason)
  | .ok bytes =>
    match String.fromUTF8? bytes with
    | none => ({} : Transcript).terminate (.file notText)
    | some contents => runLines session {} (scriptLines name contents)

def runInput (surroundings : Surroundings) (session : Session μ) : Transcript :=
  let transcript : Transcript := match surroundings.historyProblem with
    | none => {}
    | some reason => ({} : Transcript).complain ("Could not read history: " ++ reason)
  runLines session transcript (inputLines surroundings.standardInput.toList)

def runConsole (surroundings : Surroundings) (memory : μ) (arguments : List String) : Transcript :=
  match Invocation.read arguments with
  | .error usage => { exitCode := usage.exitCode }
  | .ok invocation =>
    match invocation.growth with
    | .error error => { ({} : Transcript).complain error.message with exitCode := 2 }
    | .ok growth =>
      match Session.create growth memory with
      | .error fault => ({} : Transcript).abort fault
      | .ok session =>
        match invocation.script with
        | some name => runScript surroundings session name
        | none => runInput surroundings session

end Reclaim.Console
