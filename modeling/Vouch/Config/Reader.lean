import Vouch.Config.Basic
import Vouch.Address.Text
import Vouch.Toml.Reader
/-!
# Reading a configuration

A configuration is a TOML document. Names that it does not know are passed over; whole numbers stand
for reals. The sections on the store and the registry are complete or absent, those on the node and
on scoring have fields that may be left out.
-/
namespace Vouch

open Toml (Value Fields)

/-- A number, with a fraction or without. -/
def Toml.Value.float? : Value → Option Float
  | .real x => some x
  | .int i => some (i : Float)
  | _ => none

def Toml.Value.address? (v : Value) : Option Address := v.string?.bind Address.parse?

def LogFormat.ofToml (v : Value) : Option LogFormat :=
  match v.choice? with
  | some "plain" => some .plain
  | some "json" => some .json
  | _ => none

def ModelKind.ofToml (v : Value) : Option ModelKind :=
  match v.choice? with
  | some "baseline" => some .baseline
  | some "throughput" => some .throughput
  | _ => none

def NodeSection.ofToml (v : Value) : Option NodeSection := do
  let f ← v.fields?
  return {
    subject := ← f.required 0 "subject" Value.string?
    address := ← f.required 1 "address" Value.address?
    privateKey := ← f.required 2 "private_key" Value.string?
    rootAddress := ← f.required 3 "root_address" Value.address?
    rootKey := ← f.required 4 "root_public_key" Value.string?
    logLevel := ← f.withDefault 5 "log_level" Value.string? defaultLogLevel
    logFormat := ← f.withDefault 6 "log_format" LogFormat.ofToml .plain }

def StoreSection.ofToml (v : Value) : Option StoreSection := do
  let f ← v.fields?
  return {
    capacity := ← f.required 0 "capacity" Value.nat?
    requestTimeoutSeconds := ← f.required 1 "request_timeout_secs" Value.nat?
    exchangeUnsolicited := ← f.required 2 "derive_for_unsolicited" Value.bool? }

def RegistryLimits.ofToml (v : Value) : Option RegistryLimits := do
  let f ← v.fields?
  return {
    edges := ← f.required 0 "edge_capacity" Value.nat?
    capabilities := ← f.required 1 "capability_capacity" Value.nat?
    perEdge := ← f.required 2 "capabilities_per_edge" Value.nat? }

def ApplicationWeights.ofToml (v : Value) : Option (ApplicationWeights Float) := do
  let f ← v.fields?
  return {
    application := ← f.required 0 "application" Value.string?
    weights := ← f.required 1 "weights" (Value.table? Value.float?) }

def ThresholdSetting.ofToml (v : Value) : Option (ThresholdSetting Float) := do
  let f ← v.fields?
  let capability ← f.required 0 "capability" Value.string?
  let inbound ← f.required 1 "inbound" Value.float?
  let outbound ← f.required 2 "outbound" Value.float?
  return ⟨capability, ⟨inbound, outbound⟩⟩

def TrustConfig.ofToml (v : Value) : Option (TrustConfig Float) := do
  let f ← v.fields?
  return {
    model := ← f.withDefault 0 "model" ModelKind.ofToml .baseline
    challenge := ← f.optional 1 "challenge_response_capability" Value.string?
    applications := ← f.withDefault 2 "applications" (Value.list? ApplicationWeights.ofToml) []
    thresholds := ← f.withDefault 3 "throughput_thresholds" (Value.list? ThresholdSetting.ofToml) [] }

def NodeConfig.ofToml (v : Value) : Option (NodeConfig Float) := do
  let f ← v.fields?
  return {
    node := ← f.required 0 "node" NodeSection.ofToml
    store := ← f.withDefault 1 "keystore" StoreSection.ofToml .default
    registry := ← f.withDefault 2 "registry" RegistryLimits.ofToml .default
    trust := ← f.withDefault 3 "trust" TrustConfig.ofToml .default }

/-- The configuration a text stands for. -/
def NodeConfig.parse (s : String) : Except ConfigError (NodeConfig Float) := do
  let some c := (Toml.parse? s).bind NodeConfig.ofToml | throw .unreadable
  c.validate
  return c

/-- Why a configuration file gives no configuration. -/
inductive LoadError where
  | missing
  | notText
  | config (cause : ConfigError)
  deriving DecidableEq, Repr

def LoadError.message : LoadError → String
  | .missing => "IO error: No such file or directory (os error 2)"
  | .notText => "IO error: stream did not contain valid UTF-8"
  | .config cause => cause.message

/-- The configuration in a file, given what the file holds, if it exists. -/
def NodeConfig.load (file : Option Bytes) : Except LoadError (NodeConfig Float) :=
  match file with
  | none => .error .missing
  | some b =>
    match String.fromUTF8? ⟨b.toArray⟩ with
    | none => .error .notText
    | some s =>
      match NodeConfig.parse s with
      | .ok c => .ok c
      | .error cause => .error (.config cause)

end Vouch
