import AccessJournal.Main
import AccessJournal.Proofs.Template.Decomposition
import AccessJournal.Service
import AccessJournal.Session.Run
import AccessJournal.Proofs.Act
import AccessJournal.Proofs.Session.Changes
import AccessJournal.Proofs.Journal.Log
import AccessJournal.Proofs.Journal.Report
import AccessJournal.Proofs.Session.Run
import AccessJournal.Proofs.Session.Depth
import AccessJournal.Proofs.Session.Attempts
import AccessJournal.Proofs.Session.Phases
import AccessJournal.Proofs.Session.Moments
import AccessJournal.Proofs.Session.Bookkeeping
import AccessJournal.Proofs.Session.Fulfilment
import AccessJournal.Proofs.Session.Isolation
import AccessJournal.Proofs.Connection.Keeps
import AccessJournal.Proofs.Connection.Ends
import AccessJournal.Proofs.Connection.Oversight
import AccessJournal.Proofs.Connection.Stack
import AccessJournal.Proofs.Journal.Success
import AccessJournal.Proofs.Connection.Transparency
import AccessJournal.Proofs.Connection.Precedence
import AccessJournal.Proofs.Connection.Timing
import AccessJournal.Proofs.Template.Values
import AccessJournal.Proofs.Connection.Identity
import AccessJournal.Proofs.Url.Split
import AccessJournal.Proofs.Template.Requests
import AccessJournal.Proofs.Service.Line
import AccessJournal.Proofs.Service.Parts
import AccessJournal.Proofs.Service.Round
import AccessJournal.Proofs.Service.Sequence
import AccessJournal.Proofs.Numeral.Digits
import AccessJournal.Proofs.Numeral.Rounding
import AccessJournal.Proofs.Numeral.Written
import AccessJournal.Proofs.Duration.Milliseconds
import AccessJournal.Proofs.Duration.Form
import AccessJournal.Proofs.Duration.Text
import AccessJournal.Proofs.Template.Substitution
import AccessJournal.Proofs.Keyed
import AccessJournal.Proofs.Template.Edits
import AccessJournal.Proofs.Url.Path
import AccessJournal.Proofs.Connection.Marking
import AccessJournal.Proofs.Connection.Starts
import AccessJournal.Proofs.Template.Shadowed
import AccessJournal.Proofs.Template.Placement
import AccessJournal.Proofs.Session.Registrations
import AccessJournal.Proofs.Session.Deliveries
import AccessJournal.Proofs.Session.Order
import AccessJournal.Proofs.Session.EndsOnce
import AccessJournal.Proofs.Numeral.Columns
import AccessJournal.Proofs.Template.Arrangement
import AccessJournal.Proofs.Template.Joining
import AccessJournal.Proofs.WallTime.Calendar
import AccessJournal.Proofs.WallTime.Text
