import BitcoinInvoice.Library.Run
import BitcoinInvoice.Library.Accumulate
import BitcoinInvoice.Library.Int64Sum
import BitcoinInvoice.Library.Rounding
import BitcoinInvoice.Go.Outcome
import BitcoinInvoice.Go.Float64
import BitcoinInvoice.Api.Models
import BitcoinInvoice.Api.Price
import BitcoinInvoice.Api.Tolerance
import BitcoinInvoice.Api.Handlers
import BitcoinInvoice.Api.Runs
import BitcoinInvoice.Library.AppendLog
import BitcoinInvoice.Api.Derivation
import BitcoinInvoice.Api.Ledger
import BitcoinInvoice.Api.Quotes
import BitcoinInvoice.Api.Settlement
import BitcoinInvoice.Api.Interleaving
import BitcoinInvoice.Bitcoin.Rpc
import BitcoinInvoice.Bitcoin.History
import BitcoinInvoice.Bitcoin.Sharing
import BitcoinInvoice.Deployment
import BitcoinInvoice.Api.Classification
import BitcoinInvoice.Bitcoin.Availability
import BitcoinInvoice.Bitcoin.Comparison
import BitcoinInvoice.Bitcoin.Multiplicity
import BitcoinInvoice.Bitcoin.Overflow
import BitcoinInvoice.Api.Skipping
import BitcoinInvoice.Api.Window
import BitcoinInvoice.Api.Forward
import BitcoinInvoice.Client.ShowInvoice
import BitcoinInvoice.Go.Decimal
import BitcoinInvoice.Go.Perturbed
import BitcoinInvoice.Js.Number
import BitcoinInvoice.Client.Amount
import BitcoinInvoice.Api.Conversion
import BitcoinInvoice.Api.Linearization
import BitcoinInvoice.Library.Network
import BitcoinInvoice.Library.Wire
import BitcoinInvoice.Client.Application
import BitcoinInvoice.Js.Display
import BitcoinInvoice.Client.Receipt
import BitcoinInvoice.Client.Document
import BitcoinInvoice.Service.Turns
import BitcoinInvoice.Service.System
import BitcoinInvoice.Service.Shown
import BitcoinInvoice.Service.Accounts
import BitcoinInvoice.Protobuf.Messages
import BitcoinInvoice.Service.Polls
import BitcoinInvoice.Service.Submission
