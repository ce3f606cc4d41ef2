import Coercion.CommandLine.Run
import Std.Time.DateTime

namespace Coercion

def environmentValue? (name : String) : IO (Option Text) := do
  return (← IO.getEnv name).map String.toList

/-- The surroundings of the process. -/
def surroundings : IO CommandLine.Surroundings := do
  let now ← Std.Time.Timestamp.now
  return {
    name := "coercion".toList
    version := "0.1.0".toList
    timezone := ← environmentValue? "COERCION_TIMEZONE"
    now := ← environmentValue? "COERCION_NOW"
    logFilter := ← environmentValue? "COERCION_LOG"
    hostZone := ← environmentValue? "TZ"
    reading := now.toMillisecondsSinceUnixEpoch.val }

end Coercion

open Coercion in
def main (arguments : List String) : IO UInt32 := do
  let outcome := CommandLine.Outcome.of (← surroundings) (arguments.map String.toList)
  for entry in outcome.log do
    IO.eprintln (if outcome.jsonLog then entry.json else entry.line)
  IO.print (String.ofList outcome.output)
  match outcome.error with
  | some message => IO.eprintln message
  | none => pure ()
  return outcome.exit.toUInt32
