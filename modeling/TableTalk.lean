import TableTalk.Main
import TableTalk.Message.Metrics
import TableTalk.Store.Edit
import TableTalk.Proofs.Message.Course
import TableTalk.Proofs.Message.Authorization
import TableTalk.Proofs.Message.Rejected
import TableTalk.Proofs.Time.Order
import TableTalk.Proofs.Slot.Bounds
import TableTalk.Proofs.Slot.Components
import TableTalk.Proofs.Slot.Complement
import TableTalk.Proofs.Time.StoredOrder
import TableTalk.Proofs.Time.Forms
import TableTalk.Proofs.Query.Found
import TableTalk.Proofs.Time.RoundTrip
import TableTalk.Proofs.Query.TimeFilters
import TableTalk.Proofs.Slot.Boundless
import TableTalk.Proofs.Store.Registered
import TableTalk.Proofs.Store.Rows
import TableTalk.Proofs.Store.Operations
import TableTalk.Proofs.Slot.StoredWindows
import TableTalk.Proofs.Store.Ordering
import TableTalk.Proofs.Slot.CellOrder
import TableTalk.Proofs.Text.Words
import TableTalk.Proofs.Command.Reading
import TableTalk.Proofs.Command.Signs
import TableTalk.Proofs.Shortcut.Patterns
import TableTalk.Proofs.Shortcut.Expansion
import TableTalk.Proofs.Message.TrailingPassword
import TableTalk.Proofs.Message.AddPairs
import TableTalk.Proofs.Message.Protocol
import TableTalk.Proofs.Message.StoredForm
import TableTalk.Proofs.Slot.Question
import TableTalk.Proofs.Text.Bytes
import TableTalk.Proofs.Number.Rounding
import TableTalk.Proofs.Number.FewDigits
import TableTalk.Proofs.Number.Numerals
import TableTalk.Proofs.Statement.Token
import TableTalk.Proofs.Statement.Language
import TableTalk.Proofs.Statement.Reading
import TableTalk.Proofs.Query.Result
import TableTalk.Proofs.Store.Reach
import TableTalk.Proofs.Store.Engine
import TableTalk.Proofs.Store.Answers
import TableTalk.Proofs.Store.Received
import TableTalk.Proofs.Statement.Values
import TableTalk.Proofs.Store.History
import TableTalk.Proofs.Store.HelperTables
import TableTalk.Proofs.Store.Credentials
import TableTalk.Proofs.Store.ShortcutList
import TableTalk.Proofs.Store.Relations
import TableTalk.Proofs.Store.Definition
import TableTalk.Proofs.Time.Canonical
import TableTalk.Proofs.Shortcut.Chain
import TableTalk.Proofs.Shortcut.Binding
import TableTalk.Proofs.Time.Forward
import TableTalk.Proofs.Slot.NothingTold
import TableTalk.Proofs.Message.EmptyReply
import TableTalk.Proofs.Query.OneMeaning
import TableTalk.Proofs.Value.KeptAgain
import TableTalk.Proofs.Query.Segments
import TableTalk.Proofs.Command.Pairs
import TableTalk.Proofs.Query.BySegments
import TableTalk.Proofs.Command.ByPairs
import TableTalk.Proofs.Slot.NormalForm
import TableTalk.Proofs.Time.Moved
import TableTalk.Proofs.Time.ReferenceYear
import TableTalk.Proofs.Slot.Gathered
import TableTalk.Proofs.Message.ReadBack
import TableTalk.Proofs.Message.Counting
import TableTalk.Proofs.Time.Hours
import TableTalk.Proofs.Checked.Slices
import TableTalk.Proofs.Checked.Commands
import TableTalk.Proofs.Checked.Groups
import TableTalk.Proofs.Checked.Expressions
import TableTalk.Proofs.Checked.Dates
import TableTalk.Proofs.Checked.Windows
import TableTalk.Proofs.Checked.Plans
import TableTalk.Proofs.Checked.Handling
