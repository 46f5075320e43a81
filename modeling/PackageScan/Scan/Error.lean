import PackageScan.Archive.Basic
import PackageScan.Scan.Remote
import PackageScan.RuleSet.Compiler
import PackageScan.Scan.Store

/-!
# Why a scan fails

Every failure of a scan is a value: nothing that goes wrong in a scan stops the program. Some
failures may be gone when the same scan is run again (`ScanError.isTransient`).
-/

namespace PackageScan

/-- Why a scan has failed. -/
inductive ScanError where
  /-- There is nothing at the path of the package. -/
  | targetNotFound (path : String)
  /-- A remote scanner has no answer. -/
  | remote (e : RemoteError)
  /-- The rules do not compile. -/
  | compilation (e : CompilationError)
  /-- The package cannot be read. -/
  | archive (e : ArchiveError)
  /-- The store has not answered. -/
  | store (e : StoreError)
  /-- The follow-up action has not been taken. -/
  | action (e : ActionError)
  deriving DecidableEq, Repr

namespace ScanError

/-- The failure that an archive error is: a missing archive is a missing package. -/
def ofArchive : ArchiveError → ScanError
  | .notFound path => .targetNotFound path
  | e => .archive e

/-- The failure in words. -/
def message : ScanError → String
  | targetNotFound path => "file \"" ++ path ++ "\" does not exist"
  | remote e => e.message
  | compilation e => s!"rule compilation failed: {e.display}"
  | archive e => e.message
  | store e => e.message
  | action e => e.message

/-- The code under which the failure is logged. -/
def code : ScanError → Code
  | targetNotFound _ => .targetNotFound
  | remote e => e.code
  | compilation _ => .ruleCompilationFailed
  | archive e => e.code
  | store e => e.code
  | action e => e.code

/-- May the failure be gone when the same scan is run again? -/
def isTransient : ScanError → Bool
  | remote (.unavailable _) => true
  | store (.backend _) => true
  | _ => false

end ScanError

end PackageScan
