import AccessJournal.Launch

/-!
# The command line

Reads the settings from the environment and says how the service is launched with
them, or which of them cannot be read.
-/

namespace AccessJournal.CommandLine

/-- The environment variables that are read. -/
def environmentNames : List String :=
  ["ACCESS_LOG_ENABLED", "ACCESS_LOG_FORMAT", "ACCESS_LOG_LEVEL", "ACCESS_LOG_LOGGER",
    "ACCESS_LOG_TOKENS", "HOST", "LOG_LEVEL", "PORT"]

/-- How a launch is described, one option a line. -/
def describe (l : Launch) : List String :=
  [s!"application={l.application}", s!"factory={l.factory}", s!"host={l.host}",
    s!"port={l.port}", s!"log_level={l.serverLevel}", s!"access_log={l.accessLog}"]

/-- What is wrong with the settings, one fault a line. -/
def faultLines : Failure → List String
  | .invalidSettings faults => faults.map fun (name, code) => s!"{name}: {code}"
  | f => f.message?.toList

/-- The lines for standard output or for standard error, and whether all went well. -/
def outcome (environment : List (String × String)) : List String × Bool :=
  match Settings.read environment [] with
  | .ok s => (describe (Launch.ofSettings s), true)
  | .error f => (faultLines f, false)

end AccessJournal.CommandLine

open AccessJournal.CommandLine in
/-- Prints how the service is launched. -/
def main : IO UInt32 := do
  let environment ← environmentNames.filterMapM fun name => do
    pure ((← IO.getEnv name).map fun value => (name, value))
  let (lines, fine) := outcome environment
  for line in lines do
    if fine then IO.println line else IO.eprintln line
  pure (if fine then 0 else 1)
