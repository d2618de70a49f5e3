import StorybookStorage.Effects.Program
import StorybookStorage.Effects.Weakest
import StorybookStorage.Effects.Pool
import StorybookStorage.Effects.Replay
import StorybookStorage.Effects.Background
import StorybookStorage.Python.Str
import StorybookStorage.Python.Quote
import StorybookStorage.Python.Json
import StorybookStorage.Posix.Path
import StorybookStorage.Posix.Realpath
import StorybookStorage.Posix.FileTree
import StorybookStorage.Posix.Soundness
import StorybookStorage.Posix.Calls
import StorybookStorage.Posix.Contract
import StorybookStorage.Posix.Custody
import StorybookStorage.Posix.Simulation
import StorybookStorage.Posix.Focus
import StorybookStorage.Posix.Undisturbed
import StorybookStorage.Posix.Directories
import StorybookStorage.Posix.NameLimit
import StorybookStorage.Posix.Growth
import StorybookStorage.Core.Errors
import StorybookStorage.Core.Platform
import StorybookStorage.Core.Rules
import StorybookStorage.Order.Best
import StorybookStorage.Config.Settings
import StorybookStorage.Validation.KeyGrammar
import StorybookStorage.Drivers.Base
import StorybookStorage.Drivers.Paths
import StorybookStorage.Drivers.LocalFs
import StorybookStorage.Drivers.PutTask
import StorybookStorage.Drivers.Layout
import StorybookStorage.Validation.Exactness
import StorybookStorage.Validation.Extensions
import StorybookStorage.Drivers.Confinement
import StorybookStorage.Drivers.Signing
import StorybookStorage.Drivers.Specs
import StorybookStorage.Drivers.Methods
import StorybookStorage.Drivers.Failures
import StorybookStorage.Drivers.Records
import StorybookStorage.Store.Operations
import StorybookStorage.Python.Dict
import StorybookStorage.Config.CapMaps
import StorybookStorage.Config.Environment
import StorybookStorage.Python.JsonText
import StorybookStorage.Python.Sha256
import StorybookStorage.Core.Reference
import StorybookStorage.Store.Fresh
import StorybookStorage.Store.Sequential
import StorybookStorage.Store.History
import StorybookStorage.Store.StaleSidecar
import StorybookStorage.Store.StaleSweep
import StorybookStorage.Store.Retrieval
import StorybookStorage.Store.Upkeep
import StorybookStorage.Store.Answers
import StorybookStorage.Store.Independence
import StorybookStorage.Store.Publication
import StorybookStorage.Store.CreateOnce
import StorybookStorage.Store.SidecarAgreement
import StorybookStorage.Store.Deletion
import StorybookStorage.Store.HeadExact
import StorybookStorage.Store.FailedPut
import StorybookStorage.Store.BadSidecar
import StorybookStorage.Store.Litter
import StorybookStorage.Store.Backlog
import StorybookStorage.Store.Standing
import StorybookStorage.Store.Cancellation
import StorybookStorage.Store.Recording
import StorybookStorage.Store.Coexistence
import StorybookStorage.Store.LongNames
import StorybookStorage.Store.Moments
import StorybookStorage.Store.Sweeping
import StorybookStorage.Store.Traversal
import StorybookStorage.Store.Selection
import StorybookStorage.Auth.Principal
import StorybookStorage.Auth.ApiKeys
import StorybookStorage.Validation.PrefixPolicy
import StorybookStorage.Validation.LongestMatch
import StorybookStorage.Routers.Common
import StorybookStorage.Routers.Handlers
import StorybookStorage.Access.Signatures
import StorybookStorage.Access.SignedUrls
import StorybookStorage.Access.RoundTrip
import StorybookStorage.Access.Addresses
import StorybookStorage.Access.Expiry
import StorybookStorage.Access.Requests
import StorybookStorage.Access.Dedup
import StorybookStorage.Access.Authority
import StorybookStorage.Access.ActiveContent
import StorybookStorage.Access.SizeGate
import StorybookStorage.Effects.Unwinding
import StorybookStorage.Store.Refusal
import StorybookStorage.Store.Seclusion
import StorybookStorage.Access.NonInterference
import StorybookStorage.Access.Representative
import StorybookStorage.Posix.Names
import StorybookStorage.Service.Lifespan
import StorybookStorage.Store.Atomicity
import StorybookStorage.Service.Restart
import StorybookStorage.Service.Housekeeping
import StorybookStorage.Posix.Descriptors
import StorybookStorage.Service.Handles
import StorybookStorage.Access.Ledger
