import VaultLink.Association.Record
import VaultLink.Association.Registry
import VaultLink.Association.Store
import VaultLink.Bytes
import VaultLink.Client.Association
import VaultLink.Client.Basic
import VaultLink.Client.Exchange
import VaultLink.Client.Operations
import VaultLink.Command.Line
import VaultLink.Command.Perform
import VaultLink.Command.Report
import VaultLink.Config
import VaultLink.Crypto.Box
import VaultLink.Crypto.Curve25519
import VaultLink.Crypto.Entropy
import VaultLink.Crypto.Fault
import VaultLink.Crypto.Key
import VaultLink.Crypto.Nonce
import VaultLink.Crypto.Poly1305
import VaultLink.Crypto.Salsa20
import VaultLink.Crypto.Sha256
import VaultLink.Error
import VaultLink.Files.FileSystem
import VaultLink.Files.Path
import VaultLink.Json.Basic
import VaultLink.Json.Conform
import VaultLink.Json.Fault
import VaultLink.Json.Lexis
import VaultLink.Json.Number
import VaultLink.Json.Parser
import VaultLink.Json.Printer
import VaultLink.Json.Reader
import VaultLink.Json.Scan
import VaultLink.Json.Shape
import VaultLink.Main
import VaultLink.Proofs.Association.Catalogue
import VaultLink.Proofs.Association.Filing
import VaultLink.Proofs.Association.Replacing
import VaultLink.Proofs.Association.Stores
import VaultLink.Proofs.Association.Written
import VaultLink.Proofs.Client.Acceptance
import VaultLink.Proofs.Client.Approval
import VaultLink.Proofs.Client.Backlog
import VaultLink.Proofs.Client.Calls
import VaultLink.Proofs.Client.Canonical
import VaultLink.Proofs.Client.Closed
import VaultLink.Proofs.Client.Closing
import VaultLink.Proofs.Client.Course
import VaultLink.Proofs.Client.Deadlines
import VaultLink.Proofs.Client.Episodes
import VaultLink.Proofs.Client.Eviction
import VaultLink.Proofs.Client.Fatality
import VaultLink.Proofs.Client.Freshness
import VaultLink.Proofs.Client.Gating
import VaultLink.Proofs.Client.History
import VaultLink.Proofs.Client.Introduction
import VaultLink.Proofs.Client.KeyExchange
import VaultLink.Proofs.Client.Lagging
import VaultLink.Proofs.Client.Passage
import VaultLink.Proofs.Client.Prompting
import VaultLink.Proofs.Client.Punctuality
import VaultLink.Proofs.Client.Questions
import VaultLink.Proofs.Client.Reception
import VaultLink.Proofs.Client.Refusal
import VaultLink.Proofs.Client.Replies
import VaultLink.Proofs.Client.Retirement
import VaultLink.Proofs.Client.RoundTrip
import VaultLink.Proofs.Client.Run
import VaultLink.Proofs.Client.Sequencing
import VaultLink.Proofs.Client.Sharing
import VaultLink.Proofs.Client.Spent
import VaultLink.Proofs.Client.Stages
import VaultLink.Proofs.Client.Standing
import VaultLink.Proofs.Client.Submission
import VaultLink.Proofs.Client.Transparency
import VaultLink.Proofs.Client.Validation
import VaultLink.Proofs.Client.Verdicts
import VaultLink.Proofs.Client.Waiting
import VaultLink.Proofs.Config.Overriding
import VaultLink.Proofs.Config.Sources
import VaultLink.Proofs.Crypto.Counting
import VaultLink.Proofs.Crypto.Drawing
import VaultLink.Proofs.Crypto.Sealing
import VaultLink.Proofs.Files.Actions
import VaultLink.Proofs.Files.Growth
import VaultLink.Proofs.Files.Path
import VaultLink.Proofs.Files.Tree
import VaultLink.Proofs.Json.Accepting
import VaultLink.Proofs.Json.Edge
import VaultLink.Proofs.Json.Following
import VaultLink.Proofs.Json.Grammar
import VaultLink.Proofs.Json.Meaning
import VaultLink.Proofs.Json.Parsing
import VaultLink.Proofs.Json.Pieces
import VaultLink.Proofs.Json.Reading
import VaultLink.Proofs.Json.Rendering
import VaultLink.Proofs.Json.Sound
import VaultLink.Proofs.Json.Spelling
import VaultLink.Proofs.Json.Writing
import VaultLink.Proofs.Proxy.Answering
import VaultLink.Proofs.Proxy.Classes
import VaultLink.Proofs.Proxy.Codes
import VaultLink.Proofs.Proxy.Decoding
import VaultLink.Proofs.Proxy.Encoding
import VaultLink.Proofs.Proxy.Forms
import VaultLink.Proofs.Proxy.Kinds
import VaultLink.Proofs.Proxy.Members
import VaultLink.Proofs.Proxy.Signals
import VaultLink.Proofs.Session.Handshake
import VaultLink.Proofs.Session.NonceOrder
import VaultLink.Proofs.Session.Opening
import VaultLink.Proofs.Session.Payload
import VaultLink.Proofs.Session.Registers
import VaultLink.Proofs.Session.Reservation
import VaultLink.Proofs.Session.Run
import VaultLink.Proofs.Steps
import VaultLink.Proofs.Text.Base64
import VaultLink.Proofs.Text.Integer
import VaultLink.Proofs.Vault.Groups
import VaultLink.Proofs.Wire.Accounting
import VaultLink.Proofs.Wire.Delivery
import VaultLink.Proofs.Wire.Envelopes
import VaultLink.Proofs.Wire.Limits
import VaultLink.Proofs.Wire.Pending
import VaultLink.Proofs.Wire.Reassembly
import VaultLink.Proofs.Wire.Timetable
import VaultLink.Proxy.Action
import VaultLink.Proxy.ErrorCode
import VaultLink.Proxy.Failure
import VaultLink.Proxy.Inbound
import VaultLink.Proxy.Outbound
import VaultLink.Proxy.Script
import VaultLink.Session
import VaultLink.Session.Phase
import VaultLink.Table
import VaultLink.Text.Base64
import VaultLink.Text.Blank
import VaultLink.Text.Decimal
import VaultLink.Text.Duration
import VaultLink.Text.Glyph
import VaultLink.Text.Integer
import VaultLink.Text.Quoted
import VaultLink.Text.Redacted
import VaultLink.Text.Utf8
import VaultLink.Vault.Group
import VaultLink.Vault.Login
import VaultLink.Wire.Frame
import VaultLink.Wire.Link
