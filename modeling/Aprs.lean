import Aprs.Ax25.Frame
import Aprs.Coordinate.Exact
import Aprs.Decimal.Scientific
import Aprs.Line
import Aprs.Proofs.Body.Outcome
import Aprs.Proofs.Width
import Aprs.Proofs.Body.Fault
import Aprs.Proofs.Decoder.Text
import Aprs.Proofs.Timestamp
import Aprs.Proofs.Body.Shape
import Aprs.Proofs.Body.Layout
import Aprs.Proofs.Checked.Basic
import Aprs.Proofs.Checked.Field
import Aprs.Proofs.Checked.Position
import Aprs.Proofs.Checked.Weather
import Aprs.Proofs.Checked.Report
import Aprs.Proofs.Reader
import Aprs.Proofs.Offset
import Aprs.Proofs.Ax25.Field
import Aprs.Proofs.Ax25.Address
import Aprs.Proofs.Ax25.Frame
import Aprs.Proofs.Ax25.Refusal
import Aprs.Proofs.Callsign
import Aprs.Proofs.Utf8.WellFormed
import Aprs.Proofs.Path
import Aprs.Proofs.Case
import Aprs.Proofs.Line.Parts
import Aprs.Proofs.Path.Text
import Aprs.Proofs.Message
import Aprs.Proofs.Item
import Aprs.Proofs.Line.Reading
import Aprs.Proofs.Line.Rendering
import Aprs.Proofs.Line.Text
import Aprs.Proofs.Header
import Aprs.Proofs.Base91
import Aprs.Proofs.Register
import Aprs.Proofs.Base91.Register
import Aprs.Proofs.Coordinate
import Aprs.Proofs.Decimal
import Aprs.Proofs.Symbol
import Aprs.Proofs.Altitude
import Aprs.Proofs.Altitude.Token
import Aprs.Proofs.Body.Dated
import Aprs.Proofs.Body.Station
import Aprs.Proofs.Body.Altitude
import Aprs.Proofs.Coordinate.Angle
import Aprs.Proofs.Position.Block
import Aprs.Proofs.Coordinate.Area
import Aprs.Proofs.Position.Text
import Aprs.Proofs.Position.Ambiguity
import Aprs.Proofs.Position.Compression
import Aprs.Proofs.Body.Object
import Aprs.Proofs.Range.Field
import Aprs.Proofs.Extension.Text
import Aprs.Proofs.Range.Packet
import Aprs.Proofs.Position.Base91
import Aprs.Proofs.Weather.Token
import Aprs.Proofs.Weather.Report
import Aprs.Proofs.Weather.Reading
import Aprs.Proofs.Weather.Order
import Aprs.Proofs.Weather.Sign
