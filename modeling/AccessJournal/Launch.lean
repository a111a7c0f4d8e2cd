import AccessJournal.Settings

/-!
# Launching the service

What the server is told when the service is launched: which application it is to
make, where to listen, and that it is not to write access lines of its own.
-/

namespace AccessJournal

/-- What the server is told. -/
structure Launch where
  application : String
  /-- Whether the application is made by calling what the name stands for. -/
  factory : Bool
  host : String
  port : Int
  serverLevel : String
  accessLog : Bool
  deriving DecidableEq, Repr

namespace Launch

/-- The launch with these settings. -/
def ofSettings (s : Settings) : Launch where
  application := "request_log.app:create_app"
  factory := true
  host := s.host
  port := s.port
  serverLevel := s.serverLevel
  accessLog := false

end Launch

end AccessJournal
