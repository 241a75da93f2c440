import Vouch.Program.LogFilter
import Vouch.Config.Basic
import Vouch.Json.Writer
import Vouch.Crypto.Keys
/-!
# What a node logs of its own life

From start to stop a node logs who it is, what it will weigh, and now and then how full it is. Every
event has a message and named fields.
-/
namespace Vouch

/-- Something in the life of a node. -/
inductive Event where
  | loggingReady (format : LogFormat) (directive : String)
  | started (subject : Eui64) (address root : Address) (key : PublicKey) (model : ModelKind)
  | noted (n : Notice)
  | weightsLoaded (application : String)
  | noChallenge
  | status (verified pending capacity edges : Nat)
  | stopRequested
  | stopped

namespace Event

def level : Event → Level
  | .loggingReady _ _ => .debug
  | .noted n => n.level
  | .noChallenge => .warn
  | _ => .info

/-- The part of the program that an event comes from. -/
def part : Event → String
  | .loggingReady _ _ => "edgetrust_core::logging"
  | .noted _ => "edgetrust_trust::metrics"
  | _ => "edgetrust_node"

def message : Event → String
  | .loggingReady _ _ => "logging initialized"
  | .started _ _ _ _ _ => "edgetrust node started"
  | .noted n => n.message
  | .weightsLoaded _ => "trust weights loaded"
  | .noChallenge => "no challenge-response capability configured"
  | .status _ _ _ _ => "status"
  | .stopRequested => "shutdown requested"
  | .stopped => "edgetrust node stopped"

/-- The fields of an event besides its message. -/
def details : Event → List (String × Json Float)
  | .loggingReady format directive =>
    [("format", .str format.describe), ("directive", .str directive)]
  | .started subject address root key model =>
    [("subject", .str subject.toHex), ("address", .str address.text), ("root", .str root.text),
      ("public_key", .str (Hex.encode key.toBytes)), ("model", .str model.describe)]
  | .noted (.weightIgnored application reason) =>
    [("application", .str application), ("error", .str reason)]
  | .weightsLoaded application => [("application", .str application)]
  | .status verified pending capacity edges =>
    [("verified", .int verified), ("pending", .int pending), ("capacity", .int capacity),
      ("edges", .int edges)]
  | _ => []

/-- The names of the fields of an event, its message among them. -/
def fieldNames (e : Event) : List String := "message" :: e.details.map Prod.fst

/-- The message and the fields of an event. -/
def fields (e : Event) : Json Float :=
  .obj ((("message", .str e.message) :: e.details).foldl
    (fun m d => Entries.insert d.1 d.2 m) [])

/-- A detail behind a message: a text as it is, anything else as JSON. -/
def detailText (d : String × Json Float) : String :=
  match d.2 with
  | .str s => s!"{d.1}={s}"
  | v => s!"{d.1}={v.render}"

/-- The line of the log for an event. -/
def line (format : LogFormat) (e : Event) : String :=
  match format with
  | .json =>
    (Json.obj [("fields", e.fields), ("level", .str e.level.text), ("target", .str e.part)]).render
  | .plain =>
    String.intercalate " "
      ([e.level.text, e.part ++ ":", e.message] ++ e.details.map detailText)

end Event
end Vouch
