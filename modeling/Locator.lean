import Locator.Bytes
import Locator.Cache.Basic
import Locator.Cache.Callers
import Locator.Cache.Program
import Locator.CommandLine.Arguments
import Locator.CommandLine.Failure
import Locator.CommandLine.Locations
import Locator.CommandLine.Run
import Locator.CommandLine.Usage
import Locator.Config.Basic
import Locator.Config.Build
import Locator.Config.Discovery
import Locator.Config.Environment
import Locator.Config.Merge
import Locator.Config.Printing
import Locator.Config.Reading
import Locator.Config.Validation
import Locator.Duration
import Locator.Error
import Locator.Files.Location
import Locator.Files.System
import Locator.Http.Body
import Locator.Http.Callers
import Locator.Http.Clients
import Locator.Http.Exchange
import Locator.Http.Head
import Locator.Http.Reader
import Locator.Http.Reply
import Locator.Http.Scan
import Locator.Log
import Locator.Main
import Locator.Path.Basic
import Locator.Path.Relative
import Locator.Proofs.Cache.Accounts
import Locator.Proofs.Cache.Attachment
import Locator.Proofs.Cache.Entries
import Locator.Proofs.Cache.Hall
import Locator.Proofs.Cache.History
import Locator.Proofs.Cache.Makers
import Locator.Proofs.Cache.Purging
import Locator.Proofs.Cache.Recall
import Locator.Proofs.Cache.Retention
import Locator.Proofs.Cache.Sections
import Locator.Proofs.Cache.SingleFlight
import Locator.Proofs.Cache.Slots
import Locator.Proofs.CommandLine.Copies
import Locator.Proofs.CommandLine.ExitCodes
import Locator.Proofs.CommandLine.Sessions
import Locator.Proofs.CommandLine.Shown
import Locator.Proofs.CommandLine.Strict
import Locator.Proofs.Config.Documents
import Locator.Proofs.Config.JsonText
import Locator.Proofs.Config.Leaves
import Locator.Proofs.Config.Legality
import Locator.Proofs.Config.Merging
import Locator.Proofs.Config.Nearest
import Locator.Proofs.Config.Overlaying
import Locator.Proofs.Config.Precedence
import Locator.Proofs.Config.Search
import Locator.Proofs.Config.Spelling
import Locator.Proofs.Config.Variables
import Locator.Proofs.Config.WrittenBack
import Locator.Proofs.Config.YamlText
import Locator.Proofs.Duration
import Locator.Proofs.Files.Absolute
import Locator.Proofs.Files.Contents
import Locator.Proofs.Files.Upwards
import Locator.Proofs.Files.Writing
import Locator.Proofs.Http.Confinement
import Locator.Proofs.Http.Lobby
import Locator.Proofs.Http.Reading
import Locator.Proofs.Http.Serial
import Locator.Proofs.Http.Steps
import Locator.Proofs.Path.Collapse
import Locator.Proofs.Path.Containment
import Locator.Proofs.Path.Endings
import Locator.Proofs.Path.Kinds
import Locator.Proofs.Path.Nesting
import Locator.Proofs.Path.NormalForm
import Locator.Proofs.Path.OnePass
import Locator.Proofs.Path.Parts
import Locator.Proofs.Path.Plain
import Locator.Proofs.Path.RelativeForm
import Locator.Proofs.Path.Roots
import Locator.Proofs.Path.RoundTrip
import Locator.Proofs.Path.Segments
import Locator.Proofs.Path.Separators
import Locator.Proofs.Resolver.Again
import Locator.Proofs.Resolver.Candidates
import Locator.Proofs.Resolver.Copying
import Locator.Proofs.Resolver.Pages
import Locator.Proofs.Resolver.Reading
import Locator.Proofs.Resolver.Resolution
import Locator.Proofs.Resolver.Runs
import Locator.Proofs.Resolver.Statuses
import Locator.Proofs.Resolver.Upgrade
import Locator.Proofs.Resolver.WholePages
import Locator.Proofs.Stream.Calls
import Locator.Proofs.Stream.Moving
import Locator.Proofs.Stream.Pieces
import Locator.Proofs.Stream.Whole
import Locator.Proofs.Text.Number
import Locator.Proofs.Text.Trimming
import Locator.Proofs.Yaml.Blocks
import Locator.Proofs.Yaml.DoubleQuotes
import Locator.Proofs.Yaml.Flow
import Locator.Proofs.Yaml.Gaps
import Locator.Proofs.Yaml.Plain
import Locator.Proofs.Yaml.Printed
import Locator.Proofs.Yaml.Quotes
import Locator.Proofs.Yaml.Scanning
import Locator.Proofs.Yaml.SingleQuotes
import Locator.Proofs.Yaml.Styles
import Locator.Proofs.Yaml.Trimmed
import Locator.Resolver.Resolve
import Locator.Resolver.Session
import Locator.Stream.Copy
import Locator.Stream.Handle
import Locator.Text.Blank
import Locator.Text.Number
import Locator.Text.Quoted
import Locator.Text.Split
import Locator.Url.Basic
import Locator.Url.Domain
import Locator.Url.Fault
import Locator.Url.Host
import Locator.Url.Parse
import Locator.Url.Percent
import Locator.Url.Punycode
import Locator.Yaml.Cursor
import Locator.Yaml.Document
import Locator.Yaml.Printer
import Locator.Yaml.Property
import Locator.Yaml.Scalar
import Locator.Yaml.Token
import Locator.Yaml.Words
