import PackageScan.Scan.Engine
import PackageScan.Settings.Environment

/-!
# Settings

What can be chosen about scans. `Settings.ofEnvironment` gives the defaults, some of which the
environment can change.
-/

namespace PackageScan

/-- The choices about scans. -/
structure Settings where
  /-- Where the first remote scanner is. -/
  customs : Endpoint := {}
  /-- Where the second remote scanner is. -/
  wat : Endpoint := {}
  /-- Seconds that a remote scanner has for its answer. -/
  timeoutSecs : Nat := 120
  /-- Bounds on packages. -/
  archive : ArchiveLimits := {}
  /-- How the rules of a snapshot are compiled. -/
  policy : CompilationPolicy := .isolated
  /-- Where remote scanners fetch packages. -/
  siteUrl : String := "http://localhost:8000"
  deriving DecidableEq, Repr

/-- An endpoint given by two variables. -/
def Endpoint.ofEnvironment (env : Environment) (url key : String) : Endpoint where
  apiUrl := (env url).getD ""
  apiKey := (env key).getD ""

/-- The endpoint as JSON. -/
def Endpoint.toJson (e : Endpoint) : Json :=
  .obj [("api_url", .str e.apiUrl), ("api_key", .str e.apiKey)]

namespace Settings

/-- The defaults in an environment. -/
def ofEnvironment (env : Environment) : Settings where
  customs := .ofEnvironment env "XSCAN_CUSTOMS_API_URL" "XSCAN_CUSTOMS_API_KEY"
  wat := .ofEnvironment env "XSCAN_WAT_API_URL" "XSCAN_WAT_API_KEY"
  timeoutSecs := env.read "XSCAN_SCANNER_TIMEOUT" Environment.number? 120
  archive := {}
  policy := env.read "XSCAN_COMPILATION_POLICY" CompilationPolicy.parse? .isolated
  siteUrl := (env "XSCAN_SITE_URL").getD "http://localhost:8000"

/-- The settings with a timeout given in milliseconds; it is counted in whole seconds, of which
there is at least one. -/
def withTimeout (s : Settings) (millis : Nat) : Settings :=
  { s with timeoutSecs := max (millis / 1000) 1 }

/-- The settings as JSON. -/
def toJson (s : Settings) : Json :=
  .obj
    [("customs", s.customs.toJson), ("wat", s.wat.toJson),
      ("scanner_timeout_secs", .nat s.timeoutSecs), ("archive", s.archive.toJson),
      ("compilation_policy", .str s.policy.name), ("site_url", .str s.siteUrl)]

/-- The engine of a kind. -/
def engine (s : Settings) (preferences : CompilerPreferences) (files : Files)
    (network : Network) : ScannerKind → Engine
  | .customs => .remote .customs s.customs s.siteUrl network
  | .wat => .remote .wat s.wat s.siteUrl network
  | .yara => .ruleBased files s.policy preferences s.archive

end Settings

end PackageScan
