import PackageScan.Settings.Basic
import PackageScan.Toml.Parser

/-!
# Settings files

A settings file is a TOML document. What it does not mention stays as the environment has it,
table by table: a table that it mentions starts from the defaults of such a table, whatever the
environment says. Keys that mean nothing are passed over.

A record may also be given as a list of its values in the order of its fields, of which the last
ones may be missing, and a date stands for a record without any field.
-/

namespace PackageScan

namespace Toml

/-- The values of the named fields of a record. -/
def record? (names : List String) : Toml → Option (List (Option Toml))
  | table _ fields => some (names.map fun name => fields.lookup name)
  | array items => some (names.mapIdx fun i _ => items[i]?)
  | tables items => some (names.mapIdx fun i _ => (items[i]?).map (table .header))
  | time _ => some (names.map fun _ => none)
  | _ => none

/-- A text. -/
def asText? : Toml → Option String
  | text s => some s
  | _ => none

/-- A natural number. -/
def asNat? : Toml → Option Nat
  | integer (.ofNat n) => some n
  | _ => none

/-- Is there nothing in the list or table? -/
def isVoid : Toml → Bool
  | array items => items.isEmpty
  | table _ fields => fields.isEmpty
  | tables items => items.isEmpty
  | _ => false

/-- A choice among names: the name, or a table that has something void under the name alone. -/
def choice? {α : Type} (ofName? : String → Option α) : Toml → Option α
  | text s => ofName? s
  | table _ [(name, value)] => if value.isVoid then ofName? name else none
  | _ => none

/-- The value of a field, if it is written, or the default. -/
def orElse {α : Type} (value? : Toml → Option α) (default : α) : Option Toml → Option α
  | some value => value? value
  | none => some default

end Toml

/-- The endpoint that a value writes. -/
def Endpoint.ofToml? (t : Toml) : Option Endpoint := do
  match ← t.record? ["api_url", "api_key"] with
  | [url, key] =>
    some
      { apiUrl := ← Toml.orElse Toml.asText? "" url
        apiKey := ← Toml.orElse Toml.asText? "" key }
  | _ => none

/-- The bounds on packages that a value writes. -/
def ArchiveLimits.ofToml? (t : Toml) : Option ArchiveLimits := do
  match ← t.record? ["max_entries", "max_entry_size", "max_total_size"] with
  | [entries, entry, total] =>
    let base : ArchiveLimits := {}
    some
      { maxEntries := ← Toml.orElse Toml.asNat? base.maxEntries entries
        maxEntrySize := ← Toml.orElse Toml.asNat? base.maxEntrySize entry
        maxTotalSize := ← Toml.orElse Toml.asNat? base.maxTotalSize total }
  | _ => none

/-- Why a settings file is of no use. -/
inductive SettingsError where
  /-- It cannot be read. -/
  | unreadable (path : String) (fault : Files.Fault)
  /-- It writes no settings. -/
  | malformed
  deriving DecidableEq, Repr

namespace SettingsError

/-- The error in words. -/
def message : SettingsError → String
  | unreadable path fault => s!"cannot read settings file {path}: {fault.message}"
  | malformed => "invalid settings: not a TOML document of settings"

/-- The code under which the error is logged. -/
def code (_ : SettingsError) : Code := .configurationError

end SettingsError

namespace Settings

/-- The settings that a document writes over the given ones. -/
def ofToml? (base : Settings) (t : Toml) : Option Settings := do
  match ← t.record?
      ["customs", "wat", "scanner_timeout_secs", "archive", "compilation_policy", "site_url"] with
  | [customs, wat, timeout, archive, policy, site] =>
    some
      { customs := ← Toml.orElse Endpoint.ofToml? base.customs customs
        wat := ← Toml.orElse Endpoint.ofToml? base.wat wat
        timeoutSecs := ← Toml.orElse Toml.asNat? base.timeoutSecs timeout
        archive := ← Toml.orElse ArchiveLimits.ofToml? base.archive archive
        policy := ← Toml.orElse (Toml.choice? CompilationPolicy.ofName?) base.policy policy
        siteUrl := ← Toml.orElse Toml.asText? base.siteUrl site }
  | _ => none

/-- The settings that a text writes over the given ones. -/
def parse (base : Settings) (source : String) : Except SettingsError Settings :=
  match (Toml.parse? source).bind (ofToml? base) with
  | some settings => .ok settings
  | none => .error .malformed

/-- The settings that a file writes over the given ones. -/
def load (base : Settings) (files : Files) (path : String) : Except SettingsError Settings :=
  match files.readText path with
  | .ok source => parse base source
  | .error fault => .error (.unreadable path fault)

end Settings

end PackageScan
