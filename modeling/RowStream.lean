import RowStream.Scenario.Run
import RowStream.Proofs.Changes
import RowStream.Proofs.Fetch
import RowStream.Proofs.Advance
import RowStream.Proofs.Moves
import RowStream.Proofs.World
import RowStream.Proofs.Effort
import RowStream.Proofs.Course
import RowStream.Proofs.Entries
import RowStream.Proofs.Following
import RowStream.Proofs.Drawing
import RowStream.Proofs.Reading
import RowStream.Proofs.Exhausting
import RowStream.Proofs.Drain
import RowStream.Proofs.Runs
import RowStream.Proofs.Account
import RowStream.Proofs.Conservation
import RowStream.Proofs.Gate
import RowStream.Proofs.First
import RowStream.Proofs.Sticky
import RowStream.Proofs.Closed
import RowStream.Proofs.Asking
import RowStream.Proofs.Closing
import RowStream.Proofs.Finished
import RowStream.Proofs.Failing
import RowStream.Proofs.Yield
import RowStream.Proofs.Agreement
import RowStream.Proofs.Queueing
import RowStream.Proofs.InFlight
import RowStream.Proofs.Silence
import RowStream.Proofs.Reuse
import RowStream.Proofs.Parts
import RowStream.Proofs.Normalizing
import RowStream.Proofs.Tags
import RowStream.Proofs.Leaves
import RowStream.Proofs.Grammar
import RowStream.Proofs.Embedded
import RowStream.Proofs.Replies
import RowStream.Proofs.Calendar
import RowStream.Proofs.TimeText
import RowStream.Proofs.TimeTrips
import RowStream.Proofs.ByteTexts
import RowStream.Proofs.Activities
import RowStream.Proofs.Waiting
import RowStream.Proofs.FirstError
import RowStream.Proofs.OnDemand
import RowStream.Proofs.Integers
import RowStream.Proofs.Filling
import RowStream.Proofs.Direct
import RowStream.Proofs.Leftovers
import RowStream.Proofs.ReadAhead
import RowStream.Proofs.Storage
import RowStream.Proofs.ZoneTexts
import RowStream.Proofs.InTime
