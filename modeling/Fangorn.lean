import Fangorn.Lib.Outcome
import Fangorn.Lib.Text
import Fangorn.Lib.Splitting
import Fangorn.AddressChecks
import Fangorn.AttestationRace
import Fangorn.Conjunction
import Fangorn.DecryptSession
import Fangorn.Encryption
import Fangorn.EncryptionAtomicity
import Fangorn.Lib.Scale
import Fangorn.DocStore
import Fangorn.IntentStore
import Fangorn.Lib.Hex
import Fangorn.Lib.Ink
import Fangorn.Lib.Nesting
import Fangorn.GadgetRegistry
import Fangorn.Gadgets
import Fangorn.IntentBinding
import Fangorn.PoolAttestations
import Fangorn.PoolHistory
import Fangorn.IntentHistory
import Fangorn.IntentParser
import Fangorn.IntentRendering
import Fangorn.KeyUpdater
import Fangorn.NodeState
import Fangorn.PasswordAccess
import Fangorn.PoolClient
import Fangorn.PredicateRegistry
import Fangorn.RequestPool
import Fangorn.ShareEcho
import Fangorn.SharedDocument
import Fangorn.SignatureReplay
import Fangorn.StateSync
import Fangorn.HintReplication
import Fangorn.HintLoading
import Fangorn.PoolWatcher
import Fangorn.Substrate
import Fangorn.TokenGate
import Fangorn.WatcherDelivery
import Fangorn.WitnessEncoding
import Fangorn.Worker
import Fangorn.WorkerLiveness
import Fangorn.RequestSubmission
import Fangorn.Lib.Action
import Fangorn.KeyVault
import Fangorn.GeneratedKeys
import Fangorn.CombinedAttestation
import Fangorn.WatcherStop
import Fangorn.IntentComposition
import Fangorn.Entmoot
import Fangorn.EntmootRuns
import Fangorn.EntmootForms
import Fangorn.EntmootCalls
import Fangorn.Lib.Decimal
import Fangorn.EntmootPolicies
import Fangorn.DecryptionJourney
import Fangorn.Lib.Board
import Fangorn.Lib.Disk
import Fangorn.LocalStore
import Fangorn.LocalFetch
import Fangorn.Lib.Channel
import Fangorn.ClientChannel
import Fangorn.PoolBoard
import Fangorn.Lib.Custody
import Fangorn.Keystores
import Fangorn.SteVault
import Fangorn.SharedKeystores
import Fangorn.KeyTakeover
import Fangorn.Lib.Parties
import Fangorn.Startup
import Fangorn.StartupSteps
import Fangorn.StartupRuns
import Fangorn.StartupFailures
import Fangorn.RootsCommands
import Fangorn.SigningAccounts
import Fangorn.SigningRuns
