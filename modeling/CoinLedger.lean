import CoinLedger.Amount
import CoinLedger.Bytes
import CoinLedger.Chain.Basic
import CoinLedger.Chain.Block
import CoinLedger.Chain.Settings
import CoinLedger.CoinSet
import CoinLedger.Command.Arguments
import CoinLedger.Command.Basic
import CoinLedger.Command.Help
import CoinLedger.Command.Perform
import CoinLedger.Command.Report
import CoinLedger.Command.Usage
import CoinLedger.Compact
import CoinLedger.Config.Basic
import CoinLedger.Config.Environment
import CoinLedger.Config.EnvironmentFile
import CoinLedger.Config.Fault
import CoinLedger.Config.Load
import CoinLedger.Config.Scalar
import CoinLedger.Crypto.Blake2b
import CoinLedger.Crypto.Keccak
import CoinLedger.Crypto.Ristretto
import CoinLedger.Crypto.Schnorr
import CoinLedger.Crypto.Sha512
import CoinLedger.Crypto.Transcript
import CoinLedger.Cursor
import CoinLedger.FileName
import CoinLedger.Identifier
import CoinLedger.InvalidValue
import CoinLedger.Journal
import CoinLedger.Json.Parser
import CoinLedger.Json.Printer
import CoinLedger.Json.Value
import CoinLedger.Ledger.Basic
import CoinLedger.Ledger.Event
import CoinLedger.Ledger.Finalize
import CoinLedger.Ledger.Genesis
import CoinLedger.Ledger.Spend
import CoinLedger.LogLine
import CoinLedger.Loose.Basic
import CoinLedger.Loose.Display
import CoinLedger.Main
import CoinLedger.Number.Binary64
import CoinLedger.Number.Shortest
import CoinLedger.PathName
import CoinLedger.Proofs.Backend.Chain
import CoinLedger.Proofs.Backend.Script
import CoinLedger.Proofs.Backend.Session
import CoinLedger.Proofs.Backend.State
import CoinLedger.Proofs.Chain.Configured
import CoinLedger.Proofs.Chain.Failure
import CoinLedger.Proofs.Chain.Founding
import CoinLedger.Proofs.Chain.Fresh
import CoinLedger.Proofs.Chain.History
import CoinLedger.Proofs.Chain.Host
import CoinLedger.Proofs.Chain.Receipts
import CoinLedger.Proofs.Chain.Rejected
import CoinLedger.Proofs.Chain.Replay
import CoinLedger.Proofs.Chain.Restart
import CoinLedger.Proofs.Chain.Sound
import CoinLedger.Proofs.Chain.Spent
import CoinLedger.Proofs.Chain.Trace
import CoinLedger.Proofs.CoinSet.Cells
import CoinLedger.Proofs.CoinSet.Map
import CoinLedger.Proofs.CoinSet.Owners
import CoinLedger.Proofs.CoinSet.Totals
import CoinLedger.Proofs.Command.Incremental
import CoinLedger.Proofs.Command.Transfer
import CoinLedger.Proofs.Config.Normal
import CoinLedger.Proofs.Encoding.Canonical
import CoinLedger.Proofs.Encoding.Compact
import CoinLedger.Proofs.Encoding.Cursor
import CoinLedger.Proofs.Encoding.Document
import CoinLedger.Proofs.Encoding.IndentedText
import CoinLedger.Proofs.Encoding.KeyOrigin
import CoinLedger.Proofs.Encoding.Keys
import CoinLedger.Proofs.Encoding.LittleEndian
import CoinLedger.Proofs.Encoding.SigningImage
import CoinLedger.Proofs.Encoding.TextForms
import CoinLedger.Proofs.Encoding.Transaction
import CoinLedger.Proofs.Ledger.Balances
import CoinLedger.Proofs.Ledger.Conservation
import CoinLedger.Proofs.Ledger.Fees
import CoinLedger.Proofs.Ledger.Finalize
import CoinLedger.Proofs.Ledger.Footprint
import CoinLedger.Proofs.Ledger.Genesis
import CoinLedger.Proofs.Ledger.Independence
import CoinLedger.Proofs.Ledger.Ownership
import CoinLedger.Proofs.Ledger.Payout
import CoinLedger.Proofs.Ledger.Phases
import CoinLedger.Proofs.Ledger.Progress
import CoinLedger.Proofs.Ledger.Run
import CoinLedger.Proofs.Ledger.Spend
import CoinLedger.Proofs.Ledger.SpendEffect
import CoinLedger.Proofs.Ledger.Supply
import CoinLedger.Proofs.Signing.InTurn
import CoinLedger.Proofs.Signing.Transfer
import CoinLedger.Proofs.Storage.Contents
import CoinLedger.Proofs.Storage.Layers
import CoinLedger.Proofs.Storage.Program
import CoinLedger.Proofs.Storage.SortedMap
import CoinLedger.Proofs.Storage.TableFile
import CoinLedger.Proofs.Text.Decimal
import CoinLedger.Proofs.Text.Hex
import CoinLedger.Proofs.Text.Integer
import CoinLedger.Proofs.Validation
import CoinLedger.Proofs.Validation.FirstFault
import CoinLedger.Proofs.Validation.Growth
import CoinLedger.Proofs.Validation.Rules
import CoinLedger.Proofs.Validation.Verdict
import CoinLedger.Proofs.Validation.Waiting
import CoinLedger.Rejection.Basic
import CoinLedger.Rejection.Notice
import CoinLedger.Replay
import CoinLedger.Session
import CoinLedger.Storage.HostState
import CoinLedger.Storage.Layered
import CoinLedger.Storage.Snapshots
import CoinLedger.Storage.SortedMap
import CoinLedger.Storage.StoredTable
import CoinLedger.Storage.TableAddress
import CoinLedger.Storage.TableFile
import CoinLedger.Text.CodePoint
import CoinLedger.Text.ControlSequence
import CoinLedger.Text.DecimalDigit
import CoinLedger.Text.Hex
import CoinLedger.Text.Integer
import CoinLedger.Text.Lines
import CoinLedger.Text.Printable
import CoinLedger.Text.Quoted
import CoinLedger.Text.Raw
import CoinLedger.Text.Real
import CoinLedger.Text.Similarity
import CoinLedger.Text.Split
import CoinLedger.Text.UpperCase
import CoinLedger.Transaction.Basic
import CoinLedger.Transaction.Document
import CoinLedger.Transaction.Keys
import CoinLedger.Transaction.Signing
import CoinLedger.Validation
import CoinLedger.Workspace
import CoinLedger.Workspace.OpenTable
