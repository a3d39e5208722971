import Chronology.Calendar.Clock
import Chronology.Calendar.Error
import Chronology.Calendar.Gregorian
import Chronology.Calendar.Parts
import Chronology.Calendar.Rank
import Chronology.Calendar.Resolution
import Chronology.Calendar.Weekday
import Chronology.Command.Args
import Chronology.Command.Grammar
import Chronology.Command.Suggest
import Chronology.Command.Run
import Chronology.Config.Settings
import Chronology.Config.Toml
import Chronology.Domain.Basic
import Chronology.Domain.Definition
import Chronology.Domain.Error
import Chronology.Domain.Layout
import Chronology.Domain.Normalize
import Chronology.Domain.RawIndex
import Chronology.Domain.Time
import Chronology.ErrorKind
import Chronology.Main
import Chronology.Pattern.Adjustment
import Chronology.Pattern.Cycle
import Chronology.Pattern.DayRanking
import Chronology.Pattern.Error
import Chronology.Pattern.Fixed
import Chronology.Pattern.SubPattern
import Chronology.Range
import Chronology.Registry
import Chronology.Text.Blank
import Chronology.Text.Decimal
import Chronology.Text.Format
import Chronology.Text.Hidden
import Chronology.Text.Quoted
import Chronology.Text.Scan
import Chronology.Word
import Chronology.Proofs.Except
import Chronology.Proofs.Calendar.DayCount
import Chronology.Proofs.Cycle
import Chronology.Proofs.Normal
import Chronology.Proofs.Calendar.Rank
import Chronology.Proofs.Calendar.Occurrence
import Chronology.Proofs.RawIndex
import Chronology.Proofs.Pattern.DayRanking
import Chronology.Proofs.Pattern.SubPattern
import Chronology.Proofs.Domain.Layout
import Chronology.Proofs.Domain.PackUnpack
import Chronology.Proofs.Order
import Chronology.Proofs.Domain.Compare
import Chronology.Proofs.Text.Reader
import Chronology.Proofs.Text.RoundTrip
import Chronology.Proofs.Registry
import Chronology.Proofs.Utc
import Chronology.Proofs.Domain.Bounds
import Chronology.Proofs.Count
import Chronology.Proofs.Pattern.Position
import Chronology.Proofs.Domain.Target
import Chronology.Proofs.Domain.Nearest
import Chronology.Proofs.Domain.Offset
import Chronology.Proofs.RangeWalk
import Chronology.Proofs.Domain.OffCycle
import Chronology.Proofs.RangeIndices
