import PackageScan.Archive.Sweep
import PackageScan.Scan.Rule
import PackageScan.Time.Timestamp
import PackageScan.Uuid

/-!
# Results of scans

A scanner answers with a `Payload`: the local rule engine with its matches, a remote scanner with
any JSON value. A result stores the payload together with the identifiers of the known rules that
it names; whether there are matches is always read off the payload.

Results are stored as JSON. The kind of scanner decides how the payload of a stored result is
read (`Payload.ofJson?`).
-/

namespace PackageScan

/-! ### Matches -/

namespace RuleMatch

/-- The match as JSON. -/
def toJson (m : RuleMatch) : Json :=
  Json.obj [("rule", .str m.rule), ("tags", Json.strs m.tags), ("meta", Json.ofTexts m.metaData)]

/-- The match that a JSON value writes. -/
def ofJson? (j : Json) : Option RuleMatch := do
  match ← j.record? ["rule", "tags", "meta"] with
  | [rule, tags, metaData] =>
    some { rule := ← rule.asStr?, tags := ← tags.nameSet?, metaData := ← metaData.textDictionary? }
  | _ => none

end RuleMatch

/-! ### Payloads -/

/-- What a scanner answers. -/
inductive Payload where
  /-- The matches of the local rule engine. -/
  | found (records : List RuleMatch)
  /-- The answer of a remote scanner. -/
  | remote (answer : Json)

namespace Payload

/-- Is this what a scanner of the kind answers? -/
def fits (kind : ScannerKind) : Payload → Bool
  | found _ => !kind.isRemote
  | remote _ => kind.isRemote

/-- The payload as JSON. -/
def toJson : Payload → Json
  | found records => .arr (records.map RuleMatch.toJson)
  | remote answer => answer

/-- The payload of a scanner of the kind that a JSON value writes. -/
def ofJson? (kind : ScannerKind) (j : Json) : Option Payload :=
  if kind.isRemote then some (.remote j) else (Json.list? RuleMatch.ofJson? j).map .found

/-- The key under which a remote scanner lists the rules that match. -/
def rulesKey : String := "matchedRules"

/-- The texts in the list of rules of an answer. -/
def listedRules (answer : Json) : List String :=
  match answer.get? rulesKey with
  | some (.arr items) => items.filterMap Json.asStr?
  | _ => []

/-- The names of the rules that match. -/
def ruleNames (kind : ScannerKind) : Payload → NameSet
  | found records => NameSet.ofList (records.map RuleMatch.rule)
  | remote answer => if kind = .customs then NameSet.ofList (listedRules answer) else []

end Payload

/-! ### Sets of identifiers -/

/-- A set of numbers, listed in increasing order without repetition. -/
abbrev IdSet := List Nat

namespace IdSet

/-- Adds a number to the set. -/
def insert (id : Nat) : IdSet → IdSet
  | [] => [id]
  | n :: rest =>
    if id = n then n :: rest
    else if id < n then id :: n :: rest
    else n :: insert id rest

/-- The set of the numbers in a list. -/
def ofList (ids : List Nat) : IdSet := ids.foldl (fun acc id => insert id acc) []

end IdSet

/-! ### Results -/

/-- What tells a new row from all others. -/
structure Stamp where
  /-- Identifies the row. -/
  id : Uuid := .ofNat 0
  /-- When the row was made. -/
  created : Timestamp := .epoch
  deriving DecidableEq, Repr

/-- The result of one scan of one upload. -/
structure ScanResult where
  /-- Which row it is, and when it was made. -/
  stamp : Stamp
  /-- The upload. -/
  upload : Nat
  /-- The scanner. -/
  scanner : ScannerKind
  /-- What the scanner has answered. -/
  payload : Payload
  /-- The known rules that the payload names. -/
  matchedRules : IdSet

namespace ScanResult

/-- The known rules of a scanner that a payload names. -/
def resolve (kind : ScannerKind) (payload : Payload) (known : List StoredRule) : IdSet :=
  let names := payload.ruleNames kind
  IdSet.ofList ((known.filter fun rule =>
    rule.scanner = kind && names.contains rule.name).map StoredRule.id)

/-- The result of a scan, with the rules it names looked up among those known. -/
def create (stamp : Stamp) (upload : Nat) (kind : ScannerKind) (payload : Payload)
    (known : List StoredRule) : ScanResult where
  stamp := stamp
  upload := upload
  scanner := kind
  payload := payload
  matchedRules := resolve kind payload known

/-- The names of the rules that match. -/
def ruleNames (r : ScanResult) : NameSet := r.payload.ruleNames r.scanner

/-- Are there matches? -/
def hasMatches (r : ScanResult) : Bool := !r.ruleNames.isEmpty

/-- The row as JSON. -/
def toJson (r : ScanResult) : Json :=
  Json.obj
    [("id", .str r.stamp.id.render), ("upload_id", .nat r.upload), ("scanner", r.scanner.toJson),
      ("results", r.payload.toJson), ("matched_rules", .arr (r.matchedRules.map Json.nat)),
      ("created", .str r.stamp.created.render)]

/-- The row that a JSON value writes. -/
def ofJson? (j : Json) : Option ScanResult := do
  match ← j.record? ["id", "upload_id", "scanner", "results", "matched_rules", "created"] with
  | [id, upload, scanner, results, rules, created] =>
    let id ← Uuid.parse? (← id.asStr?)
    let upload ← upload.asNat64?
    let scanner ← ScannerKind.ofJson? scanner
    let rules ← Json.list? Json.asNat64? rules
    let created ← Timestamp.parse? (← created.asStr?)
    let payload ← Payload.ofJson? scanner results
    some { stamp := ⟨id, created⟩, upload, scanner, payload, matchedRules := IdSet.ofList rules }
  | _ => none

end ScanResult

/-- The result of one query rule run against one version. -/
structure QueryResult where
  /-- Which row it is, and when it was made. -/
  stamp : Stamp
  /-- The version. -/
  version : Nat
  /-- The query rule. -/
  queryRule : Nat
  /-- The scanner. -/
  scanner : ScannerKind
  /-- The matches. -/
  found : List RuleMatch
  deriving DecidableEq, Repr

namespace QueryResult

/-- The result of a run of the local rule engine. -/
def create (stamp : Stamp) (version queryRule : Nat) (found : List RuleMatch) : QueryResult where
  stamp := stamp
  version := version
  queryRule := queryRule
  scanner := .yara
  found := found

/-- Are there matches? -/
def hasMatches (r : QueryResult) : Bool := !r.found.isEmpty

/-- The row as JSON. -/
def toJson (r : QueryResult) : Json :=
  Json.obj
    [("id", .str r.stamp.id.render), ("version_id", .nat r.version),
      ("query_rule_id", .nat r.queryRule), ("scanner", r.scanner.toJson),
      ("matches", .arr (r.found.map RuleMatch.toJson)), ("created", .str r.stamp.created.render)]

/-- The row that a JSON value writes. -/
def ofJson? (j : Json) : Option QueryResult := do
  match ← j.record? ["id", "version_id", "query_rule_id", "scanner", "matches", "created"] with
  | [id, version, queryRule, scanner, found, created] =>
    let id ← Uuid.parse? (← id.asStr?)
    let version ← version.asNat64?
    let queryRule ← queryRule.asNat64?
    let scanner ← ScannerKind.ofJson? scanner
    let found ← Json.list? RuleMatch.ofJson? found
    let created ← Timestamp.parse? (← created.asStr?)
    some { stamp := ⟨id, created⟩, version, queryRule, scanner, found }
  | _ => none

end QueryResult

end PackageScan
