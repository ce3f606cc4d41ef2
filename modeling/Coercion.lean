import Coercion.Main
import Coercion.Session
import Coercion.Proofs.Calendar.Days
import Coercion.Proofs.Calendar.Months
import Coercion.Proofs.Calendar.Readings
import Coercion.Proofs.Calendar.Fields
import Coercion.Proofs.Calendar.Years
import Coercion.Proofs.Calendar.Weeks
import Coercion.Proofs.Dates.WeekNumbers
import Coercion.Proofs.Double.Integers
import Coercion.Proofs.Reading.CheckedDates
import Coercion.Proofs.Reading.FirstMark
import Coercion.Proofs.Reading.Iso
import Coercion.Proofs.Reading.IsoInversion
import Coercion.Proofs.Reading.IsoText
import Coercion.Proofs.Reading.Layouts
import Coercion.Proofs.Reading.Loose
import Coercion.Proofs.Reading.LooseInversion
import Coercion.Proofs.Reading.MarkedRules
import Coercion.Proofs.Reading.MarkedTexts
import Coercion.Proofs.Reading.Months
import Coercion.Proofs.Reading.Parts
import Coercion.Proofs.Reading.Recognition
import Coercion.Proofs.Reading.Restatements
import Coercion.Proofs.Reading.Shapes
import Coercion.Proofs.Reading.Times
import Coercion.Proofs.Reading.Tokens
import Coercion.Proofs.Reading.WrittenDates
import Coercion.Proofs.Text.Numerals
import Coercion.Proofs.Text.Positions
import Coercion.Proofs.Text.Splitting
import Coercion.Proofs.Text.Words
import Coercion.Proofs.Dates.UnitStarts
import Coercion.Proofs.Dates.Truncation
import Coercion.Proofs.Time.Daylight
import Coercion.Proofs.Time.Seasons
import Coercion.Proofs.Time.HostOffsets
import Coercion.Proofs.Dates.DaylightTruncation
import Coercion.Proofs.Dates.DaylightTime
import Coercion.Proofs.Double.Rounding
import Coercion.Proofs.Double.Values
import Coercion.Proofs.Number.Literals
import Coercion.Proofs.Number.LiteralValues
import Coercion.Proofs.Number.Expansions
import Coercion.Proofs.Number.Amounts
import Coercion.Proofs.Double.Shortest
import Coercion.Proofs.Number.Decimals
import Coercion.Proofs.Text.Joining
import Coercion.Proofs.Time.Offsets
import Coercion.Proofs.Time.Units
import Coercion.Proofs.Reading.LooseWords
import Coercion.Proofs.Reading.FullText
import Coercion.Proofs.Reading.ShortYears
import Coercion.Proofs.Reading.MonthDays
import Coercion.Proofs.Double.Arithmetic
import Coercion.Proofs.Reading.IntervalTexts
import Coercion.Proofs.Reading.Quantities
import Coercion.Proofs.Double.Errors
import Coercion.Proofs.Number.DoubleTexts
import Coercion.Proofs.Reading.DurationTexts
import Coercion.Proofs.Number.AmountTexts
import Coercion.Proofs.Number.DecimalTexts
import Coercion.Proofs.Reading.DateTexts
import Coercion.Proofs.Reading.Midnights
import Coercion.Proofs.Reading.DateOnlyValues
import Coercion.Proofs.Reading.GmtTexts
import Coercion.Proofs.Reading.ClockTexts
import Coercion.Proofs.Time.LocalReadings
import Coercion.Proofs.Number.ShortLiterals
import Coercion.Proofs.Text.Replacing
import Coercion.Proofs.Reading.WrittenReadings
import Coercion.Proofs.Reading.PatternTexts
import Coercion.Proofs.Reading.TimestampTexts
import Coercion.Proofs.Reporting.Queries
import Coercion.Proofs.Reporting.Diagnostics
import Coercion.Proofs.Double.Truncation
import Coercion.Proofs.Number.RawValues
import Coercion.Proofs.Number.BoundedIntegers
import Coercion.Proofs.Reading.ReadRanges
import Coercion.Proofs.Dates.ReachableValues
import Coercion.Proofs.Checked.Steps
import Coercion.Proofs.Checked.Calendar
import Coercion.Proofs.Checked.Zones
import Coercion.Proofs.Checked.Readers
import Coercion.Proofs.Checked.Iso
import Coercion.Proofs.Checked.Loose
import Coercion.Proofs.Checked.Rules
import Coercion.Proofs.Checked.Extremes
import Coercion.Proofs.Number.ExactDigits
import Coercion.Proofs.Time.OffsetTexts
import Coercion.Proofs.Reading.IsoGrammar
import Coercion.Proofs.Dates.TokenPatterns
import Coercion.Proofs.Dates.MergedTokens
import Coercion.Proofs.Dates.MondayCounts
import Coercion.Proofs.Reading.ClockQuantities
import Coercion.Proofs.Reading.PackedDates
import Coercion.Proofs.Reading.LooseOrder
import Coercion.Proofs.Calendar.Carrying
import Coercion.Proofs.Number.SignedWords
import Coercion.Proofs.Number.BitChains
import Coercion.Proofs.Number.FirstDigits
import Coercion.Proofs.Number.SignificantFloats
