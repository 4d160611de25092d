import Fangorn.HintReplication
import Fangorn.KeyUpdater
import Fangorn.Lib.Action
import Fangorn.Lib.Parties

/-! How nodes start up on one document (`build_full_service` in
`node/service.rs`): the bootstrap node draws the config and publishes it, each
node loads it and publishes its hint, and the bootstrap node aggregates what
hints it has into system keys. Meanwhile the document replicates, and the tasks
of each node pass on and apply what arrives. -/

namespace Fangorn

open Rust Scale

namespace Startup

structure Entry where
  key : Str
  value : Bytes
  deriving DecidableEq, Repr

def configKey : Str := "config-key-".toList

def systemKeysKey : Str := "sys-keys-".toList

inductive Stage where
  | built
  | joined
  | syncing
  | configured
  | loaded
  | sent
  | announced
  | serving
  deriving DecidableEq, Repr

inductive Subscription where
  | awaited
  | live
  | lost
  deriving DecidableEq, Repr

/-- `tmp/sys/key` as the node found it, as it wrote it, or as a failed write left
it. -/
inductive KeyFile where
  | found (content : Option Bytes)
  | written (bytes : Bytes)
  | torn (content : Option Bytes)
  deriving DecidableEq, Repr

structure Member (Config PublicKey : Type) where
  up : Bool
  stage : Stage
  replica : List Entry
  subscription : Subscription
  sync : SyncNode Config PublicKey
  writing : Option (Str × Announcement)
  pending : Option Bytes
  updating : Bool
  file : KeyFile

structure CommitteeLib (ι Config PublicKey SystemKeys : Type) where
  state : StateLib Config PublicKey
  keys : KeyLib Config PublicKey SystemKeys
  bootstrap : ι
  config : Bytes
  index : ι → Nat
  pk : ι → Config → PublicKey
  serialize : PublicKey → Bytes
  docKey : Bytes → Str
  keyFile : ι → Option Bytes

structure CommitteeLib.Correct {ι Config PublicKey SystemKeys : Type}
    (lib : CommitteeLib ι Config PublicKey SystemKeys) (config : Config) : Prop where
  config : lib.state.config lib.config = some config
  hint : ∀ pk, lib.state.hint (lib.serialize pk) = some pk
  short : ∀ pk, (lib.serialize pk).length < 2 ^ 32
  docKey : ∀ data, lib.docKey data ≠ configKey ∧ lib.docKey data ≠ systemKeysKey

/-- The steps of a node: of its start, of its two tasks, of the publication of
system keys, and documents that it adds. The finds are what the document gave,
the Booleans and the writes how the calls end. -/
inductive Act where
  | join (opened : Bool) (write : BackendWrite)
  | spawn
  | watch (subscribed : Bool)
  | configure (found : Option Entry)
  | load (found : List Entry)
  | announce (vault : Bool)
  | publish (write : BackendWrite)
  | gather
  | store (env : PublishEnv) (left : Option Bytes)
  | serve
  | receive
  | unsubscribe
  | apply
  | addDoc (data : Bytes)
  | crash

inductive Event (ι : Type) where
  | act (node : ι) (act : Act)
  | replicate (node source : ι) (entry : Entry) (noticed : Bool) (failures : Nat)

section Definitions

variable {ι Config PublicKey SystemKeys : Type} [DecidableEq ι]
  (lib : CommitteeLib ι Config PublicKey SystemKeys)

namespace Member

def post (entries : List Entry) (announcements : List Announcement)
    (m : Member Config PublicKey) : Member Config PublicKey :=
  { m with
    replica := m.replica ++ entries
    sync := { m.sync with queue := m.sync.queue ++ announcements } }

abbrev Call (Config PublicKey α : Type) := Action (Member Config PublicKey) Unit α

def send (announcement : Announcement) : Call Config PublicKey Unit := fun m =>
  if m.sync.applying then (.ok (), m.post [] [announcement]) else (.panic, m)

/-- The author and the result are unwrapped; a call that fails may have stored. -/
def setBytes (write : BackendWrite) (key : Str) (announcement : Announcement) :
    Call Config PublicKey Unit := fun m =>
  if !write.author then (.panic, m)
  else
    match Announcement.codec.encode announcement with
    | none => (.panic, m)
    | some value =>
      if !write.stored then (.panic, m)
      else (if write.reported then .ok () else .panic, m.post [⟨key, value⟩] [])

def setupDocumentStream (opened : Bool) (write : BackendWrite) (node : ι) :
    Call Config PublicKey Unit :=
  if !opened then .lift .panic
  else if node = lib.bootstrap then do
    send ⟨.config, lib.config⟩
    setBytes write configKey ⟨.config, lib.config⟩
  else .lift (.ok ())

/-- Without an entry, or when its content is not there yet, this panics. -/
def loadAndDistributeConfig (found : Option Bytes) : Call Config PublicKey Unit := do
  let content ← .lift (.expect found)
  let announcement ← .lift (StateSync.decodeAnnouncement content)
  send announcement

def sendAll : List Announcement → Call Config PublicKey Unit
  | [] => .lift (.ok ())
  | announcement :: rest => do
    send announcement
    sendAll rest

def loadPrevious (node : ι) (read : Str → Option Bytes) : Call Config PublicKey Unit :=
  if node = lib.bootstrap then .lift (.ok ())
  else do
    let announcements ← .lift (loadPreviousHints read (lib.index node))
    sendAll announcements

/-- `Node::get_pk`, unwrapped: nothing without a config, and the key vault may
fail. -/
def getPk (vault : Bool) (node : ι) : Call Config PublicKey PublicKey := fun m =>
  match m.sync.state.config with
  | none => (.panic, m)
  | some config => (if vault then .ok (lib.pk node config) else .panic, m)

def sendNodeHint (vault : Bool) (node : ι) : Call Config PublicKey Announcement := do
  let pk ← getPk lib vault node
  let hintAnnouncement : Announcement := ⟨.hint, lib.serialize pk⟩
  send hintAnnouncement
  .lift (.ok hintAnnouncement)

def settle {α : Type} (call : Call Config PublicKey α)
    (next : α → Member Config PublicKey → Member Config PublicKey)
    (m : Member Config PublicKey) : Member Config PublicKey :=
  match call m with
  | (.ok a, m') => next a m'
  | (_, m') => { m' with up := false }

def reach {α : Type} (stage : Stage) (_ : α) (m : Member Config PublicKey) :
    Member Config PublicKey :=
  { m with stage := stage }

def serving (m : Member Config PublicKey) : Member Config PublicKey :=
  { m with stage := .serving, updating := true }

def mayPublish (m : Member Config PublicKey) : Prop :=
  m.stage = .announced ∨ m.stage = .serving ∧ m.updating = true

instance (m : Member Config PublicKey) : Decidable m.mayPublish :=
  inferInstanceAs (Decidable (_ ∨ _))

/-- The part of `publish_system_keys` that looks at the state. At the first time
an error ends the start, later it waits for the next round of the updater. -/
def gather (m : Member Config PublicKey) : Member Config PublicKey :=
  match gatherKeys lib.keys m.sync.state with
  | .ok none => m.serving
  | .ok (some bytes) => { m with pending := some bytes }
  | _ => if m.stage = .serving then m else { m with up := false }

/-- The part that stores the keys. Later a panic ends the updater alone. -/
def store (env : PublishEnv) (left : Option Bytes) (bytes : Bytes)
    (m : Member Config PublicKey) : Member Config PublicKey :=
  let (result, out) := storeKeys { env with channelOpen := m.sync.applying } bytes
    ⟨none, [], none⟩
  let stored : Member Config PublicKey :=
    { m.post (out.entry.map (Entry.mk systemKeysKey)).toList out.sent with
      pending := none
      file :=
        match out.file with
        | some bytes => .written bytes
        | none => .torn left }
  match result with
  | .ok _ => stored.serving
  | .err _ => if m.stage = .serving then stored else { stored with up := false }
  | .panic =>
    if m.stage = .serving then { stored with updating := false } else { stored with up := false }

def readFrom (found : List Entry) (key : Str) : Option Bytes :=
  (found.find? fun e => e.key = key).map Entry.value

def exec (node : ι) (m : Member Config PublicKey) : Act → Member Config PublicKey
  | .join opened write =>
    if m.up ∧ m.stage = .built then
      m.settle (setupDocumentStream lib opened write node) (reach .joined)
    else m
  | .spawn =>
    if m.up ∧ m.stage = .joined then
      { m with stage := .syncing, sync := { m.sync with syncing := true } }
    else m
  | .watch subscribed =>
    if m.up ∧ m.sync.syncing ∧ m.subscription = .awaited then
      if subscribed then { m with subscription := .live }
      else { m with subscription := .lost, sync := { m.sync with syncing := false } }
    else m
  | .configure found =>
    if m.up ∧ m.stage = .syncing ∧ ∀ e ∈ found, e ∈ m.replica ∧ e.key = configKey then
      m.settle (loadAndDistributeConfig (found.map Entry.value)) (reach .configured)
    else m
  | .load found =>
    if m.up ∧ m.stage = .configured ∧ ∀ e ∈ found, e ∈ m.replica then
      m.settle (loadPrevious lib node (readFrom found)) (reach .loaded)
    else m
  | .announce vault =>
    if m.up ∧ m.stage = .loaded then
      m.settle (sendNodeHint lib vault node) fun hintAnnouncement m' =>
        { m' with stage := .sent, writing := some (indexKey (lib.index node), hintAnnouncement) }
    else m
  | .publish write =>
    match m.writing with
    | some (key, hintAnnouncement) =>
      if m.up ∧ m.stage = .sent then
        m.settle (setBytes write key hintAnnouncement) (reach .announced)
      else m
    | none => m
  | .gather =>
    if m.up ∧ node = lib.bootstrap ∧ m.mayPublish ∧ m.pending = none then m.gather lib else m
  | .store env left =>
    match m.pending with
    | some bytes => if m.up ∧ m.mayPublish then m.store env left bytes else m
    | none => m
  | .serve =>
    if m.up ∧ m.stage = .announced ∧ node ≠ lib.bootstrap then { m with stage := .serving } else m
  | .receive =>
    match m.sync.incoming with
    | e :: rest =>
      if m.up ∧ m.sync.syncing then { m with sync := StateSync.receive e rest m.sync } else m
    | [] => m
  | .unsubscribe =>
    if m.up ∧ m.subscription = .live then
      { m with subscription := .lost, sync := { m.sync with syncing := false } }
    else m
  | .apply =>
    match m.sync.queue with
    | a :: rest =>
      if m.up ∧ m.sync.applying then { m with sync := StateSync.applyNext lib.state a rest m.sync }
      else m
    | [] => m
  | .addDoc data =>
    match Announcement.codec.encode ⟨.doc, data⟩ with
    | some value =>
      if m.up ∧ m.stage ≠ .built then m.post [⟨lib.docKey data, value⟩] [] else m
    | none => m
  | .crash => { m with up := false }

/-- An entry of another replica comes in. It is an event for the task that
follows the document while it is subscribed. -/
def arrive (entry : Entry) (noticed : Bool) (failures : Nat) (m : Member Config PublicKey) :
    Member Config PublicKey :=
  if m.up ∧ m.stage ≠ .built then
    { m with
      replica := m.replica ++ [entry]
      sync := if noticed ∧ m.subscription = .live then
          { m.sync with incoming := m.sync.incoming ++ [⟨entry.value, failures⟩] }
        else m.sync }
  else m

end Member

abbrev Net (ι Config PublicKey : Type) := ι → Member Config PublicKey

def who : Event ι → ι
  | .act node _ => node
  | .replicate node _ _ _ _ => node

def act : Event ι → Net ι Config PublicKey → Member Config PublicKey
  | .act node a, net => (net node).exec lib node a
  | .replicate node source entry noticed failures, net =>
    if entry ∈ (net source).replica then (net node).arrive entry noticed failures else net node

def start : Net ι Config PublicKey := fun node =>
  ⟨true, .built, [], .awaited, ⟨[], [], State.empty, false, true⟩, none, none, false,
    .found (lib.keyFile node)⟩

def run (events : List (Event ι)) : Net ι Config PublicKey :=
  Parties.run who (act lib) (start lib) events

end Definitions

end Startup

end Fangorn
