import PackageScan.Scan.Kind
import PackageScan.Text.Blank

/-!
# Stored rules and snapshots of them

A stored rule names a rule of one scanner; rules of the local engine come with a source. A
`Snapshot` holds the rules of one kind at one moment. Those of its rules that are of that kind,
active and not blank take part in compilation, in the order of the store.
-/

namespace PackageScan

/-- A rule as it is stored. -/
structure StoredRule where
  /-- Identifies the rule. -/
  id : Nat
  /-- Its name. -/
  name : String
  /-- The scanner it belongs to. -/
  scanner : ScannerKind
  /-- Its source, for the local rule engine. -/
  definition : Option String
  /-- Does it take part in scans? -/
  isActive : Bool
  deriving DecidableEq, Repr

namespace StoredRule

/-- The source to compile: that of an active rule, unless it is blank. -/
def body? (rule : StoredRule) : Option String :=
  if rule.isActive then rule.definition.filter fun source => !Text.allBlank source.toList
  else none

/-- The rule as JSON. -/
def toJson (rule : StoredRule) : Json :=
  Json.obj
    [("id", .nat rule.id), ("name", .str rule.name), ("scanner", rule.scanner.toJson),
      ("definition", Json.ofOption .str rule.definition), ("is_active", .bool rule.isActive)]

end StoredRule

/-- The rules of one kind at one moment. -/
structure Snapshot where
  /-- The kind. -/
  kind : ScannerKind
  /-- The rules in the order of the store. -/
  rules : List StoredRule
  deriving DecidableEq, Repr

namespace Snapshot

/-- The rules that take part in compilation, each with its source. -/
def compilable (s : Snapshot) : List (StoredRule × String) :=
  (s.rules.filter fun rule => rule.scanner = s.kind).filterMap fun rule =>
    rule.body?.map fun source => (rule, source)

/-- The sources of all rules that take part, one after another with line ends between them. -/
def joined (s : Snapshot) : String := "\n".intercalate (s.compilable.map Prod.snd)

/-- The snapshot as JSON. -/
def toJson (s : Snapshot) : Json :=
  Json.obj [("kind", s.kind.toJson), ("rules", .arr (s.rules.map StoredRule.toJson))]

end Snapshot

end PackageScan
