import Conform.Compiler
import Conform.Export
import Conform.Validation

/-! # Schemas — a tree with its configuration

    A schema is a tree with the configuration and the messages it is used with.
    Its entry points differ in what they make of a report, not in the report. -/

namespace Conform

/-- A tree with its configuration.  A message service of its own takes the place
    of the catalog. -/
structure Schema where
  node : Node
  config : Config := {}
  service : Option MessageService := none

/-- The rules of a configuration with the messages of its catalog. -/
def Rules.ofConfig (config : Config) : Rules := ⟨config, (Catalog.ofConfig config).service⟩

/-- What a report of a refused value amounts to: an error. -/
def asserted (outcome : Except Error Report) : Except Error Unit :=
  outcome.bind Report.toExcept

/-- Whether a report says that the value is valid. -/
def holds (outcome : Except Error Report) : Bool :=
  match outcome with
  | .ok report => report.valid
  | .error _ => false

namespace Schema

/-- The schema of a specification. -/
def compile (spec : Spec) : Except Error Schema := (fun node => ⟨node, {}, none⟩) <$> Compiler.compiled spec

/-- The rules of the schema. -/
def rules (schema : Schema) : Rules :=
  match schema.service with
  | none => Rules.ofConfig schema.config
  | some service => ⟨schema.config, service⟩

theorem config_rules (schema : Schema) : schema.rules.config = schema.config := by
  obtain ⟨node, config, service⟩ := schema
  cases service <;> rfl

/-- All refusals of a value. -/
def validate (schema : Schema) (value : Json) : Noted (Except Error Report) :=
  schema.rules.validate schema.node value

/-- Refusals of a value as an error. -/
def assert (schema : Schema) (value : Json) : Noted (Except Error Unit) :=
  asserted <$> schema.validate value

/-- Whether a value is valid. -/
def check (schema : Schema) (value : Json) : Noted Bool := holds <$> schema.validate value

/-- Refusals of a value as an error, suspended checks included. -/
def validateWaiting (schema : Schema) (value : Json) : Noted (Except Error Unit) :=
  asserted <$> schema.rules.validateWaiting schema.node value

end Schema

namespace Chain

/-- All refusals of a value by a chain under a configuration. -/
def validateWith (chain : Chain Node) (config : Config) (value : Json) :
    Noted (Except Error Report) :=
  (Rules.ofConfig config).validateChain chain value

/-- All refusals of a value by a chain. -/
def validate (chain : Chain Node) (value : Json) : Noted (Except Error Report) :=
  chain.validateWith {} value

/-- Refusals of a value by a chain as an error. -/
def assert (chain : Chain Node) (value : Json) : Noted (Except Error Unit) :=
  asserted <$> chain.validate value

/-- Whether a value is valid for a chain. -/
def check (chain : Chain Node) (value : Json) : Noted Bool := holds <$> chain.validate value

/-- Refusals of a value by a chain as an error, suspended checks included. -/
def validateWaiting (chain : Chain Node) (value : Json) : Noted (Except Error Unit) :=
  asserted <$> (Rules.ofConfig {}).validateChainWaiting chain value

end Chain

end Conform
