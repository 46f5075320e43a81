import PackageScan.Json.Record

/-!
# Scanner kinds

A package is submitted to a fixed set of scanners: two remote classifiers, of which one names
the rules that match, and the local rule engine.
-/

namespace PackageScan

/-- A scanner that packages are submitted to. -/
inductive ScannerKind where
  /-- A remote classifier that lists the rules that match. -/
  | customs
  /-- A remote classifier without rules. -/
  | wat
  /-- The local rule engine. -/
  | yara
  deriving DecidableEq, Repr

namespace ScannerKind

/-- All kinds. -/
def all : List ScannerKind := [customs, wat, yara]

/-- The name of a kind. -/
def name : ScannerKind → String
  | customs => "customs"
  | wat => "wat"
  | yara => "yara"

/-- Does the scanner run somewhere else? -/
def isRemote : ScannerKind → Bool
  | yara => false
  | _ => true

/-- The kind with exactly the given name. -/
def ofName? (name : String) : Option ScannerKind := all.find? fun kind => kind.name == name

/-- The kind with the given name in letters of either case. -/
def parse? (name : String) : Option ScannerKind := ofName? name.toLower

/-- The kind as JSON. -/
def toJson (kind : ScannerKind) : Json := .str kind.name

/-- The kind that a JSON value stands for. -/
def ofJson? (j : Json) : Option ScannerKind := Json.choice? ofName? j

end ScannerKind

end PackageScan
