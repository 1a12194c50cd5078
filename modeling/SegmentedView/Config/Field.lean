import SegmentedView.Config.Basic

/-!
# Fields of a configuration text

The names that a configuration goes by when it is written down: those of its
fields, and those of the values that are words.
-/

set_option autoImplicit false

namespace SegmentedView

/-- A field of a configuration, in the order in which fields are written. -/
inductive Config.Field
  | slowReopenMillis
  | reusePolicy
  | validateDocCounts
  deriving DecidableEq, Repr

/-- The name of a field. -/
def Config.Field.name : Config.Field → String
  | .slowReopenMillis => "slow_reopen_threshold_ms"
  | .reusePolicy => "reuse_policy"
  | .validateDocCounts => "validate_doc_counts"

/-- The field of a name, if there is one. -/
def Config.Field.ofName? (name : String) : Option Config.Field :=
  [Config.Field.slowReopenMillis, .reusePolicy, .validateDocCounts].find? (·.name == name)

/-- The name of a policy. -/
def ReusePolicy.name : ReusePolicy → String
  | .byName => "by_name"
  | .byNameAndVersion => "by_name_and_version"

/-- The policy of a name, if there is one. -/
def ReusePolicy.ofName? (name : String) : Option ReusePolicy :=
  [ReusePolicy.byName, .byNameAndVersion].find? (·.name == name)

end SegmentedView
