import Vouch.Trust.Config
import Vouch.Registry
/-!
# The configuration of a node

Who the node is, how large its store and its registry are, and how it scores edges. `validate`
refuses a configuration that no node can be composed from: a capacity of zero, a capability name
that the registry would refuse, a threshold that is not positive. Weights that do not sum to one are
accepted, with a notice when they are used.

* `checkAll_eq_ok_iff`, `checkName_eq_ok_iff`, `checkThreshold_eq_ok_iff`: what each check accepts.
-/
namespace Vouch

/-- How log lines are written. -/
inductive LogFormat where
  | plain
  | json
  deriving DecidableEq, Repr

/-- The format as diagnostics show it. -/
def LogFormat.describe : LogFormat → String
  | .plain => "Plain"
  | .json => "Json"

/-- Who a node is and whom it trusts. Identity and keys are as written. -/
structure NodeSection where
  subject : String
  address : Address
  privateKey : String
  rootAddress : Address
  rootKey : String
  logLevel : String
  logFormat : LogFormat
  deriving DecidableEq, Repr

/-- The certificate store of a node. -/
structure StoreSection where
  capacity : Nat
  requestTimeoutSeconds : Nat
  exchangeUnsolicited : Bool
  deriving DecidableEq, Repr

/-- The configuration of a node. -/
structure NodeConfig (α : Type) where
  node : NodeSection
  store : StoreSection
  registry : RegistryLimits
  trust : TrustConfig α

def StoreSection.default : StoreSection := ⟨8, 60, false⟩

def RegistryLimits.default : RegistryLimits := ⟨4, 12, 4⟩

/-- The level of the log where none is given. -/
def defaultLogLevel : String := "info"

/-- Where a capability is named in a configuration. -/
inductive NameField where
  | challenge
  | applications
  | thresholds
  deriving DecidableEq, Repr

def NameField.text : NameField → String
  | .challenge => "trust.challenge_response_capability"
  | .applications => "trust.applications"
  | .thresholds => "trust.throughput_thresholds"

/-- Why a configuration is refused. -/
inductive ConfigError where
  /-- The text is no TOML document or does not fit the structure. -/
  | unreadable
  | storeCapacityZero
  | edgeCapacityZero
  | badName (field : NameField) (name : String)
  | thresholdNotPositive (capability : String)
  deriving DecidableEq, Repr

def ConfigError.reason : ConfigError → String
  | .unreadable => "unreadable document"
  | .storeCapacityZero => "keystore.capacity must be non-zero"
  | .edgeCapacityZero => "registry.edge_capacity must be non-zero"
  | .badName field name =>
    s!"{field.text}: capability name {Text.quoteString name} must be 1 to {maxCapabilityNameLength} bytes"
  | .thresholdNotPositive capability => s!"throughput thresholds for {capability} must be positive"

def ConfigError.message (e : ConfigError) : String := s!"Configuration error: {e.reason}"

/-- Whether the registry would accept a capability of this name. -/
def IsCapabilityName (name : String) : Prop :=
  name.utf8ByteSize ≠ 0 ∧ name.utf8ByteSize ≤ maxCapabilityNameLength

instance (name : String) : Decidable (IsCapabilityName name) := inferInstanceAs (Decidable (_ ∧ _))

def checkName (field : NameField) (name : String) : Except ConfigError Unit :=
  if IsCapabilityName name then .ok () else .error (.badName field name)

variable {α : Type} [Scalar α]

def checkThreshold (t : ThresholdSetting α) : Except ConfigError Unit :=
  match checkName .thresholds t.capability with
  | .error e => .error e
  | .ok () =>
    if t.threshold.IsPositive then .ok () else .error (.thresholdNotPositive t.capability)

/-- The first failure of a check along a list. -/
def checkAll {τ : Type} (check : τ → Except ConfigError Unit) : List τ → Except ConfigError Unit
  | [] => .ok ()
  | x :: rest =>
    match check x with
    | .error e => .error e
    | .ok () => checkAll check rest

namespace NodeConfig

/-- Accepts a configuration that a node can be composed from. -/
def validate (c : NodeConfig α) : Except ConfigError Unit := do
  if c.store.capacity = 0 then throw .storeCapacityZero
  if c.registry.edges = 0 then throw .edgeCapacityZero
  checkAll (checkName .challenge) c.trust.challenge.toList
  checkAll (fun a => checkName .applications a.application) c.trust.applications
  checkAll checkThreshold c.trust.thresholds

/-- The configuration of a first node in a network, without keys. -/
def default : NodeConfig α where
  node :=
    { subject := "00124b0000000001"
      address := .ofGroups [0xfd00, 0, 0, 0, 0x0212, 0x4b00, 0, 1]
      privateKey := ""
      rootAddress := .ofGroups [0xfd00, 0, 0, 0, 0, 0, 0, 1]
      rootKey := ""
      logLevel := defaultLogLevel
      logFormat := .plain }
  store := .default
  registry := .default
  trust := .default

end NodeConfig

theorem checkAll_eq_ok_iff {τ : Type} {check : τ → Except ConfigError Unit} {l : List τ} :
    checkAll check l = .ok () ↔ ∀ x ∈ l, check x = .ok () := by
  induction l with
  | nil => simp [checkAll]
  | cons x rest ih =>
    rw [checkAll, List.forall_mem_cons]
    split
    · rename_i h
      simp [h]
    · rename_i h
      simp [h, ih]

theorem checkName_eq_ok_iff {field : NameField} {name : String} :
    checkName field name = .ok () ↔ IsCapabilityName name := by
  unfold checkName
  split <;> simp_all

theorem checkThreshold_eq_ok_iff {t : ThresholdSetting α} :
    checkThreshold t = .ok () ↔ IsCapabilityName t.capability ∧ t.threshold.IsPositive := by
  unfold checkThreshold checkName
  by_cases hn : IsCapabilityName t.capability <;> by_cases hp : t.threshold.IsPositive <;>
    simp [hn, hp]

end Vouch
