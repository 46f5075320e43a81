import PackageScan.Decimal.Double
import PackageScan.Log.Journal
import PackageScan.RuleSet.Basic
import PackageScan.Scan.Policy

/-!
# Environment variables

An environment gives values to names. A variable that is not set, or whose value makes no sense,
leaves its setting at the default.
-/

namespace PackageScan

/-- The value of each variable that is set. -/
abbrev Environment := String → Option String

namespace Environment

/-- The environment without variables. -/
def empty : Environment := fun _ => none

/-- The environment that the given variables make; of two with one name the last one counts. -/
def ofList (assignments : List (String × String)) : Environment :=
  fun name => assignments.reverse.lookup name

/-- The names of all variables that count. -/
def names : List String :=
  ["XSCAN_CUSTOMS_API_URL", "XSCAN_CUSTOMS_API_KEY", "XSCAN_WAT_API_URL", "XSCAN_WAT_API_KEY",
    "XSCAN_SCANNER_TIMEOUT", "XSCAN_COMPILATION_POLICY", "XSCAN_SITE_URL",
    "XSCAN_LOGGING_USE_STRUCTURED", "XSCAN_LOGGING_MIN_LEVEL",
    "XSCAN_LOGGING_COMPILATION_SUMMARY", "XSCAN_RULES_REJECT_UNREFERENCED",
    "XSCAN_RULES_REGEX_SIZE_LIMIT"]

/-- A truth value: one of two words, exactly. -/
def truth? : String → Option Bool
  | "true" => some true
  | "false" => some false
  | _ => none

/-- A natural number of at most sixty-four bits: digits, perhaps after a plus sign. -/
def number? (s : String) : Option Nat :=
  let ds := match s.toList with
    | '+' :: rest => rest
    | cs => cs
  if ds.isEmpty || !ds.all Char.isDigit then none
  else
    let n := Decimal.value ds
    if n < Nat.pow 2 64 then some n else none

/-- The value of a variable as `read?` understands it. -/
def read (env : Environment) {α : Type} (name : String) (read? : String → Option α)
    (default : α) : α :=
  ((env name).bind read?).getD default

end Environment

/-- The choices about logging that the environment makes. -/
def LogPreferences.ofEnvironment (env : Environment) : LogPreferences where
  structured := env.read "XSCAN_LOGGING_USE_STRUCTURED" Environment.truth? false
  least := env.read "XSCAN_LOGGING_MIN_LEVEL" Level.parse? .info
  compilationSummary := env.read "XSCAN_LOGGING_COMPILATION_SUMMARY" Environment.truth? true

/-- The choices about compiling that the environment makes; it can only lower the bound on the
size of patterns. -/
def CompilerPreferences.ofEnvironment (env : Environment) : CompilerPreferences where
  rejectUnreferenced := env.read "XSCAN_RULES_REJECT_UNREFERENCED" Environment.truth? true
  programLimit :=
    min (env.read "XSCAN_RULES_REGEX_SIZE_LIMIT" Environment.number? Limits.programSize)
      Limits.programSize

end PackageScan
