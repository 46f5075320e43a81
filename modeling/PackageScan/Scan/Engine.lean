import PackageScan.Scan.Error
import PackageScan.Scan.Policy

/-!
# Engines

An engine turns an upload and a snapshot of the rules of its kind into a payload. The local one
compiles the snapshot and sweeps the package; a remote one has its rules elsewhere and sends the
address of the package. What becomes of the payload is none of its business.
-/

namespace PackageScan

/-- A scanner that can be run. -/
structure Engine where
  /-- What kind of scanner it is. -/
  kind : ScannerKind
  /-- Scans an upload. -/
  run : Upload → Snapshot → Logged (Except ScanError Payload)

/-- Where a remote scanner is. -/
structure Endpoint where
  /-- Its address, empty if there is none. -/
  apiUrl : String := ""
  /-- What to identify with. -/
  apiKey : String := ""
  deriving DecidableEq, Repr

/-- Is there an address? -/
def Endpoint.isConfigured (e : Endpoint) : Bool := !e.apiUrl.isEmpty

namespace Engine

/-- Sweeps the package at a path. -/
def sweepPackage (rules : RuleSet) (files : Files) (path : String) (limits : ArchiveLimits) :
    Logged (Except ScanError (List RuleMatch)) := do
  match ← sweepArchive rules files path limits with
  | .error e => return .error (.ofArchive e)
  | .ok sweep => return .ok sweep.found

/-- The local rule engine. -/
def ruleBased (files : Files) (policy : CompilationPolicy) (preferences : CompilerPreferences)
    (limits : ArchiveLimits) : Engine where
  kind := .yara
  run := fun upload snapshot => do
    match ← snapshot.compile policy preferences with
    | .error e => return .error (.compilation e)
    | .ok rules => return (← sweepPackage rules files upload.path limits).map .found

/-- Sends a request and reads the reply. -/
def ask (network : Network) (url : String) (request : Request) :
    Logged (Except RemoteError Json) := do
  match network url request with
  | .error reason => return .error (.unavailable s!"request failed: {reason}")
  | .ok reply =>
    Log.debug "Remote scanner responded"
      [("status", toString reply.status), ("bytes", toString reply.body.utf8ByteSize)]
    return reply.answer

/-- A remote scanner that fetches packages from a site. -/
def remote (kind : ScannerKind) (endpoint : Endpoint) (site : String) (network : Network) :
    Engine where
  kind := kind
  run := fun upload _ => do
    if endpoint.isConfigured then
      Log.info "Invoking remote scanner" [("url", endpoint.apiUrl)]
      let request : Request := ⟨endpoint.apiKey, upload.downloadUrl site⟩
      return ((← ask network endpoint.apiUrl request).mapError .remote).map .remote
    else
      return .error (.remote (.unavailable s!"no API URL configured for {kind.name}"))

end Engine

end PackageScan
