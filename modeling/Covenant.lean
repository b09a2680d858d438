import Covenant.Amount.Basic
import Covenant.Amount.Value
import Covenant.Arrangement.Basic
import Covenant.Arrangement.Rollout
import Covenant.Arrangement.Text
import Covenant.Arrangement.Validity
import Covenant.Calendar.Date
import Covenant.Calendar.Text
import Covenant.Canonical.Amount
import Covenant.Canonical.Arrangement
import Covenant.Canonical.Fields
import Covenant.Canonical.Snapshot
import Covenant.Command.Directory
import Covenant.Command.Elect
import Covenant.Command.Flags
import Covenant.Command.Host
import Covenant.Command.Location
import Covenant.Command.Program
import Covenant.Command.ReplayLog
import Covenant.Command.Script
import Covenant.Command.Showcase
import Covenant.Construction
import Covenant.ContractDate
import Covenant.Csv.Record
import Covenant.Csv.Row
import Covenant.Currency
import Covenant.DayCount
import Covenant.Decimal.Arithmetic
import Covenant.Decimal.Basic
import Covenant.Decimal.Text
import Covenant.Digest
import Covenant.Digest.Sha256
import Covenant.Double
import Covenant.Draft
import Covenant.Election
import Covenant.ElectionLog
import Covenant.Guard
import Covenant.Json.Basic
import Covenant.Json.Numeral
import Covenant.Json.Reader
import Covenant.Ledger
import Covenant.Main
import Covenant.Market.Sheet
import Covenant.Obligation
import Covenant.Observable
import Covenant.Ordered.Map
import Covenant.Ordered.Set
import Covenant.Party
import Covenant.Proofs.Amount.Closed
import Covenant.Proofs.Amount.Frame
import Covenant.Proofs.Amount.Interest
import Covenant.Proofs.Amount.Normal
import Covenant.Proofs.Amount.Operator
import Covenant.Proofs.Amount.Related
import Covenant.Proofs.Amount.Valuation
import Covenant.Proofs.Amount.Whole
import Covenant.Proofs.Arrangement.Basic
import Covenant.Proofs.Arrangement.Loop
import Covenant.Proofs.Arrangement.Nesting
import Covenant.Proofs.Arrangement.Normal
import Covenant.Proofs.Arrangement.Related
import Covenant.Proofs.Arrangement.Settling
import Covenant.Proofs.Arrangement.Validity
import Covenant.Proofs.Calendar.DayNumber
import Covenant.Proofs.Calendar.Naming
import Covenant.Proofs.Calendar.Order
import Covenant.Proofs.Calendar.Slash
import Covenant.Proofs.Calendar.Text
import Covenant.Proofs.Canonical.Amount
import Covenant.Proofs.Canonical.Arrangement
import Covenant.Proofs.Canonical.Depth
import Covenant.Proofs.Canonical.Fields
import Covenant.Proofs.Canonical.Growth
import Covenant.Proofs.Canonical.Injective
import Covenant.Proofs.Canonical.Readable
import Covenant.Proofs.Canonical.Snapshot
import Covenant.Proofs.Canonical.Stable
import Covenant.Proofs.Command.Directory
import Covenant.Proofs.Command.Keeping
import Covenant.Proofs.Currency
import Covenant.Proofs.DayCount
import Covenant.Proofs.Decimal.Agreement
import Covenant.Proofs.Decimal.Congruence
import Covenant.Proofs.Decimal.Division
import Covenant.Proofs.Decimal.Normal
import Covenant.Proofs.Decimal.Order
import Covenant.Proofs.Decimal.Rational
import Covenant.Proofs.Decimal.Rounding
import Covenant.Proofs.Decimal.Text
import Covenant.Proofs.Decimal.Whole
import Covenant.Proofs.Digest
import Covenant.Proofs.Draft
import Covenant.Proofs.Election
import Covenant.Proofs.Election.Related
import Covenant.Proofs.Except
import Covenant.Proofs.Interpreter
import Covenant.Proofs.Json.Prune
import Covenant.Proofs.Json.Reader
import Covenant.Proofs.Json.String
import Covenant.Proofs.Ledger
import Covenant.Proofs.Ledger.Parts
import Covenant.Proofs.Ledger.Related
import Covenant.Proofs.Market.Sheet
import Covenant.Proofs.Observable
import Covenant.Proofs.Ordered
import Covenant.Proofs.Party
import Covenant.Proofs.Refinement
import Covenant.Proofs.Replay.Agreement
import Covenant.Proofs.Replay.Extension
import Covenant.Proofs.Replay.Filtering
import Covenant.Proofs.Replay.Related
import Covenant.Proofs.Replay.Splitting
import Covenant.Proofs.Replay.Steps
import Covenant.Proofs.Replay.Stored
import Covenant.Proofs.Run
import Covenant.Proofs.Run.Length
import Covenant.Proofs.Run.Open
import Covenant.Proofs.Run.Recorded
import Covenant.Proofs.Schedule.Boundary
import Covenant.Proofs.Schedule.Lookup
import Covenant.Proofs.Schedule.Partition
import Covenant.Proofs.Terms.Depth
import Covenant.Proofs.Terms.Discharge
import Covenant.Proofs.Terms.FxForward
import Covenant.Proofs.Terms.Legs
import Covenant.Proofs.Terms.Swap
import Covenant.Proofs.Terms.Swaption
import Covenant.Proofs.Terms.Tarf
import Covenant.Proofs.Terms.Target
import Covenant.Proofs.Terms.Template
import Covenant.Proofs.Text.Blank
import Covenant.Proofs.Text.Digits
import Covenant.Proofs.Text.Hex
import Covenant.Proofs.Text.Utf8
import Covenant.Replay
import Covenant.Schedule
import Covenant.Terms.FxForward
import Covenant.Terms.Swap
import Covenant.Terms.Swaption
import Covenant.Terms.Tarf
import Covenant.Text.Blank
import Covenant.Text.Bytes
import Covenant.Text.Digits
import Covenant.Text.Hex
