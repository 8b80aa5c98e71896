import SequenceChart.Chart
import SequenceChart.Decimal.Reading
import SequenceChart.Decimal.Shortest
import SequenceChart.Diagram.Basic
import SequenceChart.Diagram.Event
import SequenceChart.Diagram.Exchange
import SequenceChart.Diagram.Kind
import SequenceChart.Diagram.MarkedText
import SequenceChart.Engine
import SequenceChart.Geometry.Bounds
import SequenceChart.Geometry.Box
import SequenceChart.Geometry.Scale
import SequenceChart.Grammar.Cursor
import SequenceChart.Grammar.Progress
import SequenceChart.Grammar.Reading
import SequenceChart.Grammar.Script
import SequenceChart.Grammar.Session
import SequenceChart.Grammar.Statement
import SequenceChart.Json.Basic
import SequenceChart.Json.Number
import SequenceChart.Json.Printer
import SequenceChart.Json.Reader
import SequenceChart.Layout.Basic
import SequenceChart.Layout.Drawing
import SequenceChart.Layout.Exchange
import SequenceChart.Measure.Basic
import SequenceChart.Measure.Grid
import SequenceChart.Proofs.Acceptance
import SequenceChart.Proofs.Activations
import SequenceChart.Proofs.Boundaries
import SequenceChart.Proofs.Brackets
import SequenceChart.Proofs.Composition
import SequenceChart.Proofs.Correspondence
import SequenceChart.Proofs.Dividers
import SequenceChart.Proofs.Enclosure
import SequenceChart.Proofs.Endpoints
import SequenceChart.Proofs.Entries
import SequenceChart.Proofs.Exact
import SequenceChart.Proofs.Export
import SequenceChart.Proofs.Failures
import SequenceChart.Proofs.Fewest
import SequenceChart.Proofs.Fields
import SequenceChart.Proofs.Filling
import SequenceChart.Proofs.Growth
import SequenceChart.Proofs.Histories
import SequenceChart.Proofs.Hulls
import SequenceChart.Proofs.Hyphens
import SequenceChart.Proofs.Largest
import SequenceChart.Proofs.Layering
import SequenceChart.Proofs.Lexing
import SequenceChart.Proofs.Lines
import SequenceChart.Proofs.Locality
import SequenceChart.Proofs.Lookahead
import SequenceChart.Proofs.Markers
import SequenceChart.Proofs.Mentions
import SequenceChart.Proofs.Nesting
import SequenceChart.Proofs.Notes
import SequenceChart.Proofs.Numbering
import SequenceChart.Proofs.Occurrences
import SequenceChart.Proofs.Octets
import SequenceChart.Proofs.Operands
import SequenceChart.Proofs.Operations
import SequenceChart.Proofs.Overhang
import SequenceChart.Proofs.Overriding
import SequenceChart.Proofs.Pairing
import SequenceChart.Proofs.Payloads
import SequenceChart.Proofs.Phases
import SequenceChart.Proofs.Pieces
import SequenceChart.Proofs.Placement
import SequenceChart.Proofs.Printing
import SequenceChart.Proofs.ReadingBack
import SequenceChart.Proofs.Registry
import SequenceChart.Proofs.Rejoining
import SequenceChart.Proofs.Rendering
import SequenceChart.Proofs.Reordering
import SequenceChart.Proofs.RoundTrips
import SequenceChart.Proofs.Rows
import SequenceChart.Proofs.Runs
import SequenceChart.Proofs.ScannedCode
import SequenceChart.Proofs.Scans
import SequenceChart.Proofs.Scripts
import SequenceChart.Proofs.Sections
import SequenceChart.Proofs.Spacing
import SequenceChart.Proofs.Spelling
import SequenceChart.Proofs.Starts
import SequenceChart.Proofs.Strips
import SequenceChart.Proofs.Surroundings
import SequenceChart.Proofs.Switches
import SequenceChart.Proofs.Tags
import SequenceChart.Proofs.Truncation
import SequenceChart.Proofs.Words
import SequenceChart.Proofs.Wrapping
import SequenceChart.Proofs.Yields
import SequenceChart.Renderer
import SequenceChart.Settings.Basic
import SequenceChart.Settings.Exchange
import SequenceChart.Settings.Key
import SequenceChart.Settings.Layer
import SequenceChart.Source.Basic
import SequenceChart.Source.Directive
import SequenceChart.Source.Fragment
import SequenceChart.Source.FrontMatter
import SequenceChart.Source.Segment
import SequenceChart.Stepwise
import SequenceChart.Text.Blank
import SequenceChart.Text.Break
import SequenceChart.Text.Columns
import SequenceChart.Text.Columns.Table
import SequenceChart.Text.Position
import SequenceChart.Text.Search
import SequenceChart.Yaml.Anchor
import SequenceChart.Yaml.Document
import SequenceChart.Yaml.Json
import SequenceChart.Yaml.Node
import SequenceChart.Yaml.Place
import SequenceChart.Yaml.Scalar.Block
import SequenceChart.Yaml.Scalar.Plain
import SequenceChart.Yaml.Scalar.Quoted
import SequenceChart.Yaml.Schema
import SequenceChart.Yaml.Token
import SequenceChart.Yaml.Token.Lexer
