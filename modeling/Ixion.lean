import Ixion.Tracker.Sort
import Ixion.Expand
import Ixion.Lib.Sweep
import Ixion.Calc.Check
import Ixion.Calc.Circular
import Ixion.Calc.Interpret
import Ixion.Document
import Ixion.Document.Effects
import Ixion.Document.Queue
import Ixion.Document.Failure
import Ixion.Tracker.Calls
import Ixion.Calc.Queue
import Ixion.Calc.Stuck
import Ixion.Interp.Operator
import Ixion.Interp.Interpreter
import Ixion.Interp.Arithmetic
import Ixion.Interp.Comparison
import Ixion.Interp.Precedence
import Ixion.Resolver.Function
import Ixion.Resolver.Resolve
import Ixion.Resolver.View.ExcelR1C1
import Ixion.Resolver.View.DotA1
import Ixion.Resolver.View.Odff
import Ixion.Resolver.View.Inside
import Ixion.Resolver.Origin
import Ixion.Resolver.Print
import Ixion.Resolver.RoundTrip
import Ixion.Resolver.SheetName
import Ixion.Resolver.RoundTripR1C1
import Ixion.Resolver.Survives
import Ixion.Resolver.SheetNameR1C1
import Ixion.Calc.Waiting
import Ixion.Resolver.CellName
import Ixion.Resolver.RangeReference
import Ixion.Resolver.RangeName
import Ixion.Resolver.NameR1C1
import Ixion.Resolver.SheetPrefix
import Ixion.Resolver.Scanned
import Ixion.Resolver.SheetReference
import Ixion.Resolver.DotName
import Ixion.Resolver.SheetBounds
import Ixion.Resolver.Overflow
import Ixion.Resolver.OdffName
import Ixion.Calc.Threads
import Ixion.Calc.Settled
import Ixion.Calc.Agree
import Ixion.Lib.Definitions
import Ixion.NamedExpression
import Ixion.Result.Cache
import Ixion.Column.Count
import Ixion.Interp.Functions
import Ixion.Interp.StackSize
import Ixion.Interp.Balance
import Ixion.Table
import Ixion.Interp.ValidRanges
import Ixion.Interp.Session
import Ixion.AddressIterator
import Ixion.Column.Position
import Ixion.Tracker.Union
import Ixion.Column.Walk
import Ixion.Column.Iterator
import Ixion.Column.DataRange
import Ixion.Column.Empty
import Ixion.Interp.WholeRange
import Ixion.Interp.Numbers
import Ixion.Interp.RangeNumbers
import Ixion.Interp.Aggregates
import Ixion.Interp.Average
import Ixion.Interp.Extremes
import Ixion.Interp.ScalarOperand
import Ixion.Lib.CodeWords
import Ixion.Interp.Characters
import Ixion.Interp.Slices
import Ixion.Interp.Find
import Ixion.Interp.Substitute
import Ixion.Interp.Median
import Ixion.Interp.Mode
import Ixion.Interp.ArrayLiteral
import Ixion.Interp.Logic
import Ixion.Interning
import Ixion.Interp.NumericMatrix
import Ixion.Lib.Strtod
import Ixion.NamedExpression.Store
import Ixion.Resolver.ColumnNumeral
import Ixion.SortInputParser
import Ixion.Table.Areas
import Ixion.ToDouble
import Ixion.Lexer.Tokenizer
import Ixion.Lexer.Pieces
import Ixion.Lib.Format
import Ixion.Lexer.Literal
import Ixion.ModelParser
import Ixion.ModelParser.Lines
import Ixion.ModelParser.Rounds
import Ixion.Document.History
import Ixion.Parser.Print
import Ixion.Interp.Accepted
import Ixion.Document.Threads
import Ixion.Document.Affected
import Ixion.ModelParser.Script
