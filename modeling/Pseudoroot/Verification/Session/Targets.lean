import Pseudoroot.Verification.Session.Launch

/-! # What a command under fakeroot runs -/

namespace Pseudoroot

open Command

/-! ## Through a supervisor -/

section Run

variable (run : RunArgs) (program : String) (args : List String) (process : EnvVars)

section Child

variable {run : RunArgs} {program : String} {args : List String} {process : EnvVars}

end Child

end Run

end Pseudoroot
