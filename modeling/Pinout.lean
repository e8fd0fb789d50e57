import Pinout.Board.Assembly
import Pinout.Board.Definition
import Pinout.Board.Hint
import Pinout.Board.Source
import Pinout.Board.Statement
import Pinout.Board.Writing
import Pinout.Capability.Catalog
import Pinout.Capability.Entry
import Pinout.Capability.Reading
import Pinout.Capability.Table
import Pinout.Capability.Writing
import Pinout.Command.Basic
import Pinout.Command.Check
import Pinout.Command.Convert
import Pinout.Command.Examination
import Pinout.Command.Line
import Pinout.Command.Outcome
import Pinout.Command.Pins
import Pinout.Command.Survey
import Pinout.Command.Tables
import Pinout.Diagnostic
import Pinout.Digest.Framing
import Pinout.Digest.Sha256
import Pinout.File.Delivery
import Pinout.File.Path
import Pinout.File.Tree
import Pinout.Header.Bank
import Pinout.Header.Device
import Pinout.Header.Document
import Pinout.Header.Fragment
import Pinout.Header.Layout
import Pinout.Header.Peripheral
import Pinout.Library.Basic
import Pinout.Library.Shelf
import Pinout.Main
import Pinout.Mcu
import Pinout.Named
import Pinout.Output.Protocol
import Pinout.Peripheral.Instance
import Pinout.Peripheral.Kind
import Pinout.Pin.Basic
import Pinout.Pin.Spelling
import Pinout.PinMap.Comment
import Pinout.PinMap.Section
import Pinout.PinMap.Writing
import Pinout.Project.Basic
import Pinout.Project.Configuration
import Pinout.Project.Filler
import Pinout.Project.Key
import Pinout.Project.Moment
import Pinout.Project.Number
import Pinout.Project.Outline
import Pinout.Project.Quoted
import Pinout.Project.Reading
import Pinout.Project.Value
import Pinout.Proofs.Board.Answer
import Pinout.Proofs.Board.Editing
import Pinout.Proofs.Board.Grammar
import Pinout.Proofs.Board.Latest
import Pinout.Proofs.Board.Line
import Pinout.Proofs.Board.LineText
import Pinout.Proofs.Board.Origin
import Pinout.Proofs.Board.Reduction
import Pinout.Proofs.Board.Renumbering
import Pinout.Proofs.Board.Soundness
import Pinout.Proofs.Board.Unambiguous
import Pinout.Proofs.Board.Writing
import Pinout.Proofs.Capability.Account
import Pinout.Proofs.Capability.Catalog
import Pinout.Proofs.Capability.Listing
import Pinout.Proofs.Capability.Lookup
import Pinout.Proofs.Capability.Position
import Pinout.Proofs.Capability.Writing
import Pinout.Proofs.Command.AllOrNothing
import Pinout.Proofs.Command.Check
import Pinout.Proofs.Command.Convert
import Pinout.Proofs.Command.Examination
import Pinout.Proofs.Digest.Framing
import Pinout.Proofs.Evaluation
import Pinout.Proofs.File.Path
import Pinout.Proofs.File.Spelling
import Pinout.Proofs.File.Tree
import Pinout.Proofs.Grouping
import Pinout.Proofs.Header.Channel
import Pinout.Proofs.Header.Code
import Pinout.Proofs.Header.Comments
import Pinout.Proofs.Header.Constant
import Pinout.Proofs.Header.Device
import Pinout.Proofs.Header.Emission
import Pinout.Proofs.Header.Lines
import Pinout.Proofs.Header.Logical
import Pinout.Proofs.Header.Naming
import Pinout.Proofs.Header.Omission
import Pinout.Proofs.Header.Outline
import Pinout.Proofs.Header.Reading
import Pinout.Proofs.Header.Reordering
import Pinout.Proofs.Header.Scope
import Pinout.Proofs.Header.Spacing
import Pinout.Proofs.Header.Splice
import Pinout.Proofs.Header.Stripping
import Pinout.Proofs.Header.Trace
import Pinout.Proofs.Header.Voice
import Pinout.Proofs.Header.Wiring
import Pinout.Proofs.Header.Wording
import Pinout.Proofs.Library.Name
import Pinout.Proofs.Library.Run
import Pinout.Proofs.Library.Search
import Pinout.Proofs.Library.Shelf
import Pinout.Proofs.Mcu
import Pinout.Proofs.Peripheral.Selector
import Pinout.Proofs.Pin.FreeSpelling
import Pinout.Proofs.Pin.Spelling
import Pinout.Proofs.Pin.TableName
import Pinout.Proofs.PinMap.Settled
import Pinout.Proofs.PinMap.Stray
import Pinout.Proofs.Resolution.Accounting
import Pinout.Proofs.Resolution.Analog
import Pinout.Proofs.Resolution.Bank
import Pinout.Proofs.Resolution.Bus
import Pinout.Proofs.Resolution.Choice
import Pinout.Proofs.Resolution.Conflict
import Pinout.Proofs.Resolution.Conservation
import Pinout.Proofs.Resolution.Contest.Basic
import Pinout.Proofs.Resolution.Contest.Channel
import Pinout.Proofs.Resolution.Contest.Instance
import Pinout.Proofs.Resolution.Contest.Pin
import Pinout.Proofs.Resolution.Decision
import Pinout.Proofs.Resolution.Description
import Pinout.Proofs.Resolution.Findings
import Pinout.Proofs.Resolution.Locality
import Pinout.Proofs.Resolution.Override
import Pinout.Proofs.Resolution.Partition
import Pinout.Proofs.Resolution.Pointing
import Pinout.Proofs.Resolution.Rate
import Pinout.Proofs.Resolution.Reordering
import Pinout.Proofs.Resolution.Uniformity
import Pinout.Proofs.Resolution.Verdict
import Pinout.Proofs.Text.Case
import Pinout.Proofs.Text.Composition
import Pinout.Proofs.Text.Numeral
import Pinout.Proofs.Text.Part
import Pinout.Proofs.Text.Respelling
import Pinout.Proofs.Text.Word
import Pinout.Report.Document
import Pinout.Resolution.Bank
import Pinout.Resolution.Board
import Pinout.Resolution.Bus
import Pinout.Resolution.Device
import Pinout.Resolution.Placement
import Pinout.Resolution.Rate
import Pinout.Resource
import Pinout.Text.Blank
import Pinout.Text.Case
import Pinout.Text.Numeral
import Pinout.Text.Split
