import Vouch.Program.Event
import Vouch.Config.Reader
import Vouch.Node
import Vouch.Trust.Engine
/-!
# A session of the node program

The program is started with the path of a configuration, or asked for its version. Arguments, file,
log filter, subject, private key and root key are checked in this order, then whether there is room
for the store and for the registry, and the first failure ends the start. A node that starts logs
what it starts with.
-/
namespace Vouch

/-- Why a node does not start. -/
inductive StartError where
  | noConfig
  | noPath
  | load (path : String) (cause : LoadError)
  | subject (cause : Eui64Error)
  | privateKey (cause : CryptoError)
  | rootKey (cause : CryptoError)
  /-- A directive of the log filter cannot be cut. -/
  | logFilter
  /-- The store or the registry would need more room than there is. -/
  | noRoom

namespace StartError

def headline : StartError → String
  | .noConfig => "missing required --config <path> argument"
  | .noPath => "--config was provided without a path"
  | .load path _ => s!"failed to load {path}"
  | .subject _ => "invalid node subject"
  | .privateKey _ => "invalid node private key"
  | .rootKey _ => "invalid root public key"
  | .logFilter => DirectiveError.misaligned.message
  | .noRoom => Room.exceeded

def cause? : StartError → Option String
  | .noConfig => none
  | .noPath => none
  | .load _ cause => some cause.message
  | .subject cause => some cause.message
  | .privateKey cause => some cause.message
  | .rootKey cause => some cause.message
  | .logFilter => none
  | .noRoom => none

/-- Whether the program breaks off, where it would otherwise end in order. -/
def isAbrupt : StartError → Bool
  | .logFilter => true
  | .noRoom => true
  | _ => false

/-- What is said of a failed start. -/
def lines (e : StartError) : List String :=
  if e.isAbrupt then ["", e.headline]
  else
    let first := s!"Error: {e.headline}"
    match e.cause? with
    | none => [first]
    | some cause => [first, "", "Caused by:", s!"    {cause}"]

/-- The status with which the program ends. -/
def exitStatus (e : StartError) : Nat := if e.isAbrupt then 101 else 1

end StartError

/-- What the arguments ask for. -/
inductive Command where
  | version
  | start (path : String)
  deriving DecidableEq, Repr

namespace Command

/-- The path behind the first `--config`. -/
def configPath : List String → Except StartError String
  | [] => .error .noConfig
  | "--config" :: path :: _ => .ok path
  | ["--config"] => .error .noPath
  | _ :: rest => configPath rest

/-- Asking for the version wins over everything else. -/
def ofArguments (args : List String) : Except StartError Command :=
  if "--version-json" ∈ args then .ok .version else (configPath args).map .start

end Command

/-- The version of the program and of what it speaks. -/
def versionLine : String :=
  "\x7b\"version\":\"0.2.0\",\"runtime_version\":1,\"protocol_version\":1\x7d"

/-- A node that has started. -/
structure Session where
  config : NodeConfig Float
  node : Node
  registry : TrustRegistry Float config.trust.model
  /-- What has been logged so far. -/
  events : List Event

namespace Session

/-- What is logged of the settings that edges are scored with. -/
def engineEvents (c : TrustConfig Float) : List Event :=
  let (engine, notices) := Engine.ofConfig c.model c
  notices.map .noted ++ engine.weights.applications.map .weightsLoaded ++
    (if c.challenge.isNone then [.noChallenge] else [])

/-- Checks identity and keys and puts the node together, with what is logged of that. -/
def identify (c : NodeConfig Float) : Except StartError (Node × Event) := do
  let subject ← (Eui64.ofHex c.node.subject).mapError .subject
  let key ← (PrivateKey.ofHex c.node.privateKey).mapError .privateKey
  let rootKey ← (PublicKey.ofHex c.node.rootKey).mapError .rootKey
  match Store.create? c.store.capacity c.node.rootAddress rootKey with
  | none => .error .noRoom
  | some store =>
    return (.new store (c.store.requestTimeoutSeconds * 1000),
      .started subject c.node.address c.node.rootAddress key.publicKey c.trust.model)

/-- Puts a session together, or says why not and what has been logged by then. -/
def compose (c : NodeConfig Float) : Except (StartError × List Event) Session :=
  match identify c with
  | .error e => .error (e, [])
  | .ok (node, started) =>
    match Registry.create? c.registry with
    | none => .error (.noRoom, [started])
    | some registry => .ok ⟨c, node, registry, started :: engineEvents c.trust⟩

/-- How full the node is. -/
def status (s : Session) : Event :=
  .status s.node.store.verified.length s.node.store.pending.length s.config.store.capacity
    s.registry.size

/-- What is logged when the node is told to stop. -/
def stopEvents : List Event := [.stopRequested, .stopped]

end Session

/-- What a start of the program came to. -/
inductive Start where
  | printed (line : String)
  | failed (e : StartError)
  /-- The configuration has been read, and some events came before the failure. -/
  | refused (c : NodeConfig Float) (events : List Event) (e : StartError)
  | running (s : Session)

/-- Starts the program, given its arguments and what files hold. -/
def start (args : List String) (file : String → Option Bytes) : Start :=
  match Command.ofArguments args with
  | .error e => .failed e
  | .ok .version => .printed versionLine
  | .ok (.start path) =>
    match NodeConfig.load (file path) with
    | .error cause => .failed (.load path cause)
    | .ok c =>
      if (LogFilter.parse c.node.logLevel).isNone then .refused c [] .logFilter
      else
        match Session.compose c with
        | .error (e, events) => .refused c events e
        | .ok s => .running s

namespace Start

/-- The configuration, where it has been read. -/
def config? : Start → Option (NodeConfig Float)
  | .printed _ => none
  | .failed _ => none
  | .refused c _ _ => some c
  | .running s => some s.config

def error? : Start → Option StartError
  | .printed _ => none
  | .failed e => some e
  | .refused _ _ e => some e
  | .running _ => none

/-- The status with which a start ends that failed, and 0. -/
def exitStatus (r : Start) : Nat := (r.error?.map StartError.exitStatus).getD 0

/-- What is said of directives that are none, and of a failure. -/
def complaints (r : Start) : List String :=
  (r.config?.map fun c => LogFilter.complaints c.node.logLevel).getD [] ++
    (r.error?.map StartError.lines).getD []

/-- The filter that the configuration gives. -/
def filter? (r : Start) : Option LogFilter := r.config?.bind fun c => LogFilter.parse c.node.logLevel

/-- The events that the filter lets through. -/
def logged (r : Start) (events : List Event) : List Event :=
  match r.filter? with
  | some f => events.filter fun e => f.allows e.part e.level e.fieldNames
  | none => []

/-- What a start logs. -/
def events (r : Start) : List Event :=
  (r.config?.map fun c => Event.loggingReady c.node.logFormat c.node.logLevel).toList ++
    match r with
    | .running s => s.events
    | .refused _ events _ => events
    | _ => []

end Start
end Vouch
