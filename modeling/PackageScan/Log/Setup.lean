import PackageScan.Log.Journal

/-!
# Setting the log up

The filter of the log and the choices about logging are set once. Whoever comes second is told
so, and what is set stays.
-/

namespace PackageScan

/-- What has been set up already. -/
inductive SetupError where
  /-- The filter. -/
  | logger
  /-- The choices about logging. -/
  | preferences
  deriving DecidableEq, Repr

/-- The error in words. -/
def SetupError.message : SetupError → String
  | logger => "Global logger already initialized"
  | preferences => "Runtime preferences already initialized"

/-- What has been set up so far. -/
structure LogSetup where
  /-- The filter that every event passes. -/
  least : Option Level := none
  /-- The choices about logging. -/
  preferences : Option LogPreferences := none
  deriving DecidableEq, Repr

namespace LogSetup

/-- Sets the filter. -/
def installLogger (s : LogSetup) (least : Level) : Except SetupError LogSetup :=
  if s.least.isSome then .error .logger else .ok { s with least := some least }

/-- Sets the choices about logging. -/
def installPreferences (s : LogSetup) (preferences : LogPreferences) :
    Except SetupError LogSetup :=
  if s.preferences.isSome then .error .preferences
  else .ok { s with preferences := some preferences }

end LogSetup

end PackageScan
