import Metrology.Attribute.Json
import Metrology.Attribute.Number
import Metrology.Filter.Condition
import Metrology.Filter.Json
import Metrology.Filter.Shape
import Metrology.Filter.Truth
import Metrology.Item.Measurement
import Metrology.Item.Operation
import Metrology.Item.PlanItem
import Metrology.Proofs.Filter.Query
import Metrology.Proofs.Filter.Literal
import Metrology.Proofs.Filter.Unambiguous
import Metrology.Proofs.Calendar.Date
import Metrology.Proofs.Calendar.WallClock
import Metrology.Proofs.Filter.Quoting
import Metrology.Proofs.Text.Digits
import Metrology.Proofs.Calendar.Reading
import Metrology.Proofs.Attribute.RoundTrip
import Metrology.Proofs.Double.Nearest
import Metrology.Item.Change
import Metrology.Proofs.Item.AttributeList
import Metrology.Proofs.Item.InsertionOrder
import Metrology.Proofs.Double.Whole
import Metrology.Proofs.Attribute.Number
import Metrology.Proofs.Attribute.Equality
import Metrology.Proofs.Item.MeasurementTime
import Metrology.Proofs.Filter.Depth
import Metrology.Proofs.Filter.Faithful
import Metrology.Proofs.Item.Independence
import Metrology.Proofs.Filter.NodeShape
import Metrology.Proofs.Attribute.Coercion
import Metrology.Proofs.Attribute.Record
import Metrology.Proofs.Attribute.Payload
import Metrology.Proofs.Calendar.Fields
import Metrology.Proofs.Text.Blank
import Metrology.Proofs.Calendar.Readers
import Metrology.Proofs.Attribute.Instant
import Metrology.Proofs.Attribute.Hierarchy
import Metrology.Proofs.Double.Size
import Metrology.Proofs.Double.Rounding
import Metrology.Proofs.Double.Notation
import Metrology.Proofs.Decimal.Numeral
import Metrology.Proofs.Double.Reading
import Metrology.Proofs.Attribute.StrictInteger
import Metrology.Proofs.Filter.Blame
import Metrology.Proofs.Filter.Runs
import Metrology.Filter.Expression
import Metrology.Proofs.Filter.Limit
import Metrology.Proofs.Filter.Operators
import Metrology.Proofs.Filter.Walk
