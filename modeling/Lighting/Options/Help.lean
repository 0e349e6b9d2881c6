import Lighting.Options.Flag

/-!
# The help text

`help` has one line for each option: its letter, its long name, whether it takes a value, and what it
is for.  It is made from `Flag.all`, so an option that is read is an option that is shown.
-/

namespace Lighting.Options

namespace Flag

/-- How the option is written, with a place for its value. -/
def form (f : Flag) : String :=
  (f.short?.map fun c => "-" ++ String.singleton c ++ ", ").getD "    " ++ "--" ++ f.long ++
    (if f.takesValue then " <VALUE>" else "")

/-- The line of an option in the help text, its explanation from a fixed column on. -/
def helpLine (f : Flag) : String :=
  "  " ++ f.form ++ String.ofList (List.replicate (34 - f.form.length) ' ') ++ "  " ++ f.about

end Flag

/-- How the program is called. -/
def usage : String :=
  "Usage: cbus-bridge [OPTIONS] --broker-address <VALUE> <--serial <VALUE>|--tcp <VALUE>>"

/-- The help text, line by line. -/
def help : List String := [usage, "", "Options:"] ++ Flag.all.map Flag.helpLine

end Lighting.Options
