import AccessJournal.Failure

/-!
# Diagnostics

Records written for the operator, apart from the access lines: the name of the
logger, a level, a message, and the failure it reports, if it reports one.
-/

namespace AccessJournal

/-- A record written to a named logger. -/
structure Diagnostic where
  logger : String
  level : Int
  message : String
  cause : Option Failure := none
  deriving DecidableEq, Repr

namespace Diagnostic

/-- The beginning of the names of all loggers here. -/
def family : String := "request_log"

def debugLevel : Int := 10

def infoLevel : Int := 20

def errorLevel : Int := 40

/-- A template was read. -/
def templateCompiled (template : String) (tokens : Nat) : Diagnostic where
  logger := "request_log.services.template_compiler"
  level := debugLevel
  message := s!"Compiled access log template {Text.quoted template} ({tokens} tokens)"

/-- A response was closed before it was finished. -/
def closedEarly (status : Value) : Diagnostic where
  logger := "request_log.infrastructure.http.exchange"
  level := debugLevel
  message := s!"Response closed before finishing (status={status.plain})"

/-- A line is written for a response that was not finished. -/
def unfinished (duration : String) : Diagnostic where
  logger := "request_log.services.request_logger"
  level := debugLevel
  message := s!"Connection closed before response finished after {duration}"

/-- Writing the line failed while the application's own failure was under way. -/
def lineFailed (cause : Failure) : Diagnostic where
  logger := "request_log.api.middleware.access_log"
  level := errorLevel
  message := "Access log failed while the application was raising"
  cause := some cause

/-- The service writes access lines. -/
def linesEnabled (format : String) : Diagnostic where
  logger := "request_log.app"
  level := infoLevel
  message := s!"Access log enabled with format {Text.quoted format}"

end Diagnostic

end AccessJournal
