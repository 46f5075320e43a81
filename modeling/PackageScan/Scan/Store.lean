import PackageScan.Log.Code
import PackageScan.Scan.Action
import PackageScan.Scan.Result

/-!
# The store

The store holds uploads, versions, rules and results. Results are only ever added, so scanning
twice stores two rows. Rules are kept in the order in which they were added last, which is also
the order of compilation.

A call may be refused while the store is out of order. `Store.create` and its like tell what a
call does; the calls a task makes go through `Store.guarded`, which refuses them.
-/

namespace PackageScan

/-- A call that a task makes to the store. -/
inductive StoreCall where
  | upload
  | rules
  | createScanResult
  | queryRule
  | version
  | createQueryResult
  deriving DecidableEq, Repr

/-- Why the store has not answered a call. -/
inductive StoreError where
  /-- There is no such row. -/
  | notFound (entity : String) (id : Nat)
  /-- The store is out of order. -/
  | backend (reason : String)
  deriving DecidableEq, Repr

namespace StoreError

/-- The error in words. -/
def message : StoreError → String
  | notFound entity id => s!"{entity} {id} does not exist"
  | backend reason => s!"store backend failure: {reason}"

/-- The code under which the error is logged. -/
def code : StoreError → Code
  | notFound _ _ => .targetNotFound
  | backend _ => .storeFailure

end StoreError

/-- Everything that is stored. -/
structure Store where
  /-- The uploads, the latest first. -/
  uploads : List Upload := []
  /-- The rules in the order in which they were added last. -/
  ruleRows : List StoredRule := []
  /-- The query rules, the latest first. -/
  queryRules : List QueryRule := []
  /-- The versions, the latest first. -/
  versions : List Version := []
  /-- The results of scans in the order in which they were made. -/
  scanRows : List ScanResult := []
  /-- The results of query rules in the order in which they were made. -/
  queryRows : List QueryResult := []
  /-- The calls that are refused at present, each with the reason. -/
  outages : List (StoreCall × String) := []

namespace Store

/-! ### Filling -/

/-- Adds an upload; one with the same identifier is forgotten. -/
def addUpload (s : Store) (u : Upload) : Store := { s with uploads := u :: s.uploads }

/-- Adds a version; one with the same identifier is forgotten. -/
def addVersion (s : Store) (v : Version) : Store := { s with versions := v :: s.versions }

/-- Adds a query rule; one with the same identifier is forgotten. -/
def addQueryRule (s : Store) (q : QueryRule) : Store := { s with queryRules := q :: s.queryRules }

/-- Adds a rule behind all others; one with the same identifier is taken out. -/
def addRule (s : Store) (rule : StoredRule) : Store :=
  { s with ruleRows := (s.ruleRows.filter fun other => other.id != rule.id) ++ [rule] }

/-- Sets whether the first rule with the identifier is active. -/
def setActive (id : Nat) (isActive : Bool) : List StoredRule → List StoredRule
  | [] => []
  | rule :: rest =>
    if rule.id = id then { rule with isActive } :: rest else rule :: setActive id isActive rest

/-- Sets whether a rule is active. -/
def setRuleActive (s : Store) (id : Nat) (isActive : Bool) : Store :=
  { s with ruleRows := setActive id isActive s.ruleRows }

/-- Adds the result of a scan. -/
def createScanResult (s : Store) (r : ScanResult) : Store :=
  { s with scanRows := s.scanRows ++ [r] }

/-- Adds the result of a query rule. -/
def createQueryResult (s : Store) (r : QueryResult) : Store :=
  { s with queryRows := s.queryRows ++ [r] }

/-! ### Reading -/

/-- The rules of a kind, active or not, in the order of the store. -/
def rulesOf (s : Store) (kind : ScannerKind) : List StoredRule :=
  s.ruleRows.filter fun rule => rule.scanner = kind

/-- The active rules of a kind. -/
def snapshot (s : Store) (kind : ScannerKind) : Snapshot where
  kind := kind
  rules := (s.rulesOf kind).filter StoredRule.isActive

/-- The results of scans of an upload in the order in which they were made. -/
def scanResults (s : Store) (upload : Nat) : List ScanResult :=
  s.scanRows.filter fun r => r.upload = upload

/-- The results of query rules on a version in the order in which they were made. -/
def queryResults (s : Store) (version : Nat) : List QueryResult :=
  s.queryRows.filter fun r => r.version = version

/-! ### Calls of tasks -/

/-- Why a call is refused at present, if it is. -/
def outage? (s : Store) (call : StoreCall) : Option String := s.outages.lookup call

/-- The answer to a call, unless the call is refused. -/
def guarded {α : Type} (s : Store) (call : StoreCall) (answer : Except StoreError α) :
    Except StoreError α :=
  match s.outage? call with
  | some reason => .error (.backend reason)
  | none => answer

/-- A row, or an error that names what is missing. -/
def found {α : Type} (entity : String) (id : Nat) : Option α → Except StoreError α
  | some row => .ok row
  | none => .error (.notFound entity id)

/-- Looks up an upload. -/
def upload (s : Store) (id : Nat) : Except StoreError Upload :=
  s.guarded .upload (found "upload" id (s.uploads.find? fun u => u.id == id))

/-- Looks up a version. -/
def version (s : Store) (id : Nat) : Except StoreError Version :=
  s.guarded .version (found "version" id (s.versions.find? fun v => v.id == id))

/-- Looks up a query rule. -/
def queryRule (s : Store) (id : Nat) : Except StoreError QueryRule :=
  s.guarded .queryRule (found "query rule" id (s.queryRules.find? fun q => q.rule.id == id))

/-- Lists the rules of a kind. -/
def rules (s : Store) (kind : ScannerKind) : Except StoreError (List StoredRule) :=
  s.guarded .rules (.ok (s.rulesOf kind))

/-- Takes a snapshot of the active rules of a kind. -/
def activeRules (s : Store) (kind : ScannerKind) : Except StoreError Snapshot :=
  s.guarded .rules (.ok (s.snapshot kind))

/-- Stores the result of a scan. -/
def storeScanResult (s : Store) (r : ScanResult) : Except StoreError Store :=
  s.guarded .createScanResult (.ok (s.createScanResult r))

/-- Stores the result of a query rule. -/
def storeQueryResult (s : Store) (r : QueryResult) : Except StoreError Store :=
  s.guarded .createQueryResult (.ok (s.createQueryResult r))

end Store

end PackageScan
