import PurpleSky.Lib.Base64
import PurpleSky.Lib.Digits
import PurpleSky.Lib.Hexadecimal
import PurpleSky.Lib.SortByKey
import PurpleSky.Hypersnap.Info
import PurpleSky.Repo.Mst
import PurpleSky.Repo.Layers
import PurpleSky.Repo.Car
import PurpleSky.Lib.Json
import PurpleSky.Repo.Syntax
import PurpleSky.Lib.Except
import PurpleSky.Repo.DataModel
import PurpleSky.Repo.RecordSet
import PurpleSky.Repo.Grammar
import PurpleSky.Repo.Budget
import PurpleSky.Repo.Repository
import PurpleSky.Repo.Closure
import PurpleSky.Credentials.Basic
import PurpleSky.Lib.Machine
import PurpleSky.Credentials.Token
import PurpleSky.Credentials.Database
import PurpleSky.Credentials.Store
import PurpleSky.Credentials.Run
import PurpleSky.Credentials.Bearer
import PurpleSky.Credentials.SingleUse
import PurpleSky.Credentials.Revocation
import PurpleSky.Farcaster.Message
import PurpleSky.Lib.Procedure
import PurpleSky.Credentials.Moves
import PurpleSky.Credentials.Binding
import PurpleSky.Credentials.Metadata
import PurpleSky.Credentials.Readback
import PurpleSky.Lib.Connection
import PurpleSky.Credentials.Statements
import PurpleSky.Credentials.Live
import PurpleSky.Credentials.Passwords
import PurpleSky.Credentials.Lifetime
import PurpleSky.Credentials.TokenKinds
import PurpleSky.Farcaster.Client
import PurpleSky.Farcaster.Authority
import PurpleSky.Farcaster.Window
import PurpleSky.Farcaster.Texts
import PurpleSky.Farcaster.Recheck
import PurpleSky.Node.Settings
import PurpleSky.Node.Core
import PurpleSky.Node.Actions
import PurpleSky.Node.Moves
import PurpleSky.Node.Evidence
import PurpleSky.Node.Binding
import PurpleSky.Node.Gating
import PurpleSky.Node.Revocation
import PurpleSky.Node.Cancellation
import PurpleSky.Node.Routine
import PurpleSky.Node.Consent
import PurpleSky.Node.Cache
import PurpleSky.Node.Finality
import PurpleSky.Node.BlockRule
import PurpleSky.Node.Usable
import PurpleSky.Console.Journal
import PurpleSky.Node.Maps
import PurpleSky.Lib.JsonPretty
import PurpleSky.Console.Settings
import PurpleSky.Console.ConfigStore
import PurpleSky.Console.Handles
import PurpleSky.Console.Control
import PurpleSky.Console.Lifecycle
import PurpleSky.Console.Checks
import PurpleSky.Console.Policy
import PurpleSky.Lib.SlidingWindow
import PurpleSky.Repo.Growth
import PurpleSky.Lib.Argmax
import PurpleSky.Lib.Utf8
import PurpleSky.Hypersnap.Custody
import PurpleSky.Lib.Tally
import PurpleSky.Hypersnap.Preflight
import PurpleSky.Hypersnap.Health
import PurpleSky.Node.Limit
import PurpleSky.Lib.Abi
import PurpleSky.Farcaster.Calldata
import PurpleSky.Lib.Simulation
import PurpleSky.Node.Calls
import PurpleSky.Node.Sessions
import PurpleSky.Node.Grants
import PurpleSky.Credentials.Origins
import PurpleSky.Node.Custody
import PurpleSky.Repo.Reading
import PurpleSky.Node.Publication
import PurpleSky.Node.Failures
import PurpleSky.Node.Throttle
import PurpleSky.Console.Serving
import PurpleSky.Lib.Http
import PurpleSky.Console.Portal
import PurpleSky.Console.Guard
import PurpleSky.Console.Front
import PurpleSky.Console.Requests
import PurpleSky.Console.Provenance
