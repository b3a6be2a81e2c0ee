import ApiLint.Path

/-! The variables that a run is told by its surroundings. -/
namespace ApiLint

/-- The variables of a process, by name. -/
abbrev Environment := List (String × Text)

namespace Environment

/-- The value of a variable that is set to something. -/
def given? (env : Environment) (name : String) : Option Text :=
  (env.lookup name).filter (· ≠ [])

/-- The configuration file that is named by a variable. -/
def configFile? (env : Environment) : Option Path :=
  (env.given? "PVA_CONFIG").map Path.ofText

end Environment

end ApiLint
