import PackageScan.Json.Basic

/-!
# Records, choices and collections in JSON

A record is read from an object that has all its fields, in whatever order and with others
beside them, or from the list of its field values in their order. A choice among names is read
from the name or from an object that maps the name alone to `null`.
-/

namespace PackageScan

namespace Json

/-- The values of the named fields of a record. -/
def record? (names : List String) : Json → Option (List Json)
  | .obj fields => names.mapM (Dictionary.find? fields)
  | .arr items => if items.length = names.length then some items else none
  | _ => none

/-- A choice among names. -/
def choice? {α : Type} (ofName? : String → Option α) : Json → Option α
  | .str name => ofName? name
  | .obj [(name, .null)] => ofName? name
  | _ => none

/-- A list of items. -/
def list? {α : Type} (item? : Json → Option α) : Json → Option (List α)
  | .arr items => items.mapM item?
  | _ => none

/-- A set of texts, listed in any order. -/
def nameSet? (j : Json) : Option NameSet := (list? asStr? j).map NameSet.ofList

/-- A dictionary of texts. -/
def textDictionary? : Json → Option (Dictionary String)
  | .obj fields => fields.mapM fun (key, value) => value.asStr?.map fun s => (key, s)
  | _ => none

/-- The object of a dictionary of texts. -/
def ofTexts (d : Dictionary String) : Json := .obj (d.map fun (key, value) => (key, .str value))

end Json

end PackageScan
