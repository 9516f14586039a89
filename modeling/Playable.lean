import Playable.Cache
import Playable.Cipher.Catalog
import Playable.Cipher.Plan
import Playable.Json.Reader
import Playable.Json.Value
import Playable.Json.Writer
import Playable.Literal.Anchor
import Playable.Literal.Scan
import Playable.Manifest.Playlist
import Playable.Manifest.Quality
import Playable.Manifest.Variant
import Playable.Network.Download
import Playable.Network.Transport
import Playable.Number.Binary64
import Playable.Number.Decimal
import Playable.Number.Integer
import Playable.Number.Shortest
import Playable.Page.ScriptUrl
import Playable.Page.VideoId
import Playable.Page.VideoInfo
import Playable.Pattern.Basic
import Playable.Pattern.Search
import Playable.Proofs.Cache.Extraction
import Playable.Proofs.Cache.Failure
import Playable.Proofs.Cache.Inclusion
import Playable.Proofs.Cache.Interleaving
import Playable.Proofs.Cache.Memory
import Playable.Proofs.Cache.Recency
import Playable.Proofs.Cache.Request
import Playable.Proofs.Cache.Window
import Playable.Proofs.Cipher.Run
import Playable.Proofs.Cipher.Selection
import Playable.Proofs.Cipher.Undo
import Playable.Proofs.Json.Balanced
import Playable.Proofs.Json.Number
import Playable.Proofs.Json.Spelling
import Playable.Proofs.Json.String
import Playable.Proofs.Json.Token
import Playable.Proofs.Json.Written
import Playable.Proofs.Literal.Acceptance
import Playable.Proofs.Literal.Grammar
import Playable.Proofs.Literal.Nested
import Playable.Proofs.Literal.Part
import Playable.Proofs.Manifest.Attribute
import Playable.Proofs.Manifest.Isolation
import Playable.Proofs.Manifest.Rendition
import Playable.Proofs.Network.Dependence
import Playable.Proofs.Network.Steady
import Playable.Proofs.Network.Transport
import Playable.Proofs.Number.Digits
import Playable.Proofs.Number.Printed
import Playable.Proofs.Number.Rounding
import Playable.Proofs.Number.Shortest
import Playable.Proofs.Page.Embedded
import Playable.Proofs.Page.LegacyList
import Playable.Proofs.Page.VideoId
import Playable.Proofs.Page.WatchUrl
import Playable.Proofs.Pattern.Capture
import Playable.Proofs.Pattern.Fit
import Playable.Proofs.Pattern.Take
import Playable.Proofs.Record.Query
import Playable.Proofs.Record.Reading
import Playable.Proofs.Record.Spelling
import Playable.Proofs.Record.Synonym
import Playable.Proofs.Record.Written
import Playable.Proofs.Register
import Playable.Proofs.Script.ArrayProgram
import Playable.Proofs.Script.Call
import Playable.Proofs.Script.Catalogued
import Playable.Proofs.Script.Classified
import Playable.Proofs.Script.Entry
import Playable.Proofs.Script.Enumeration
import Playable.Proofs.Script.Identifier
import Playable.Proofs.Script.Member
import Playable.Proofs.Script.Minified
import Playable.Proofs.Script.Operation
import Playable.Proofs.Script.Outcome
import Playable.Proofs.Script.Routine
import Playable.Proofs.Script.Statement
import Playable.Proofs.Script.Token
import Playable.Proofs.Script.Unambiguous
import Playable.Proofs.Sequence
import Playable.Proofs.Service
import Playable.Proofs.Session.Influence
import Playable.Proofs.Session.Repetition
import Playable.Proofs.Session.Requests
import Playable.Proofs.Session.Transparency
import Playable.Proofs.Signing.Detection
import Playable.Proofs.Signing.Finality
import Playable.Proofs.Signing.Independence
import Playable.Proofs.Signing.Isolation
import Playable.Proofs.Signing.Legacy
import Playable.Proofs.Signing.Parameter
import Playable.Proofs.Text.Cut
import Playable.Proofs.Text.Line
import Playable.Proofs.Text.Raw
import Playable.Proofs.Text.Utf8
import Playable.Proofs.Url.Extension
import Playable.Proofs.Url.Form
import Playable.Record.Format
import Playable.Record.Response
import Playable.Record.Stream
import Playable.Record.Validation
import Playable.Register
import Playable.Script.Entry
import Playable.Script.Extract
import Playable.Script.Fault
import Playable.Script.Helper
import Playable.Script.Shape
import Playable.Script.Statement
import Playable.Service
import Playable.Session
import Playable.Settings
import Playable.Signing
import Playable.Text.Basic
import Playable.Text.Blank
import Playable.Text.Digit
import Playable.Text.Lines
import Playable.Text.Lowercase
import Playable.Text.Order
import Playable.Text.Printable
import Playable.Text.Quoted
import Playable.Text.Raw
import Playable.Text.Utf8
import Playable.Text.Word
import Playable.Url.Authority
import Playable.Url.Form
import Playable.Url.Join
import Playable.Url.Split
