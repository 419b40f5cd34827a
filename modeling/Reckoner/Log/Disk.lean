import Reckoner.Text.Quoted

/-!
# Opening Log Files

A log file is asked for by its name, and it is up to the system what the name leads to: a
file to append to, the same one for several names perhaps, or a directory, or nothing at
all. That is not decided here. A `Disk` is given to whatever opens files, and answers for
every name.

## Main definitions

* `DiskFault`: Why a name leads to no file.
* `Disk`: What names lead to.
-/

namespace Reckoner

/-- Why a name leads to no file that can be written to. Either the system refuses, and says
    why, or the name is none. -/
inductive DiskFault
  | refused (number : Nat) (reason path : String)
  | unusable (message : String)
deriving DecidableEq, Repr

/-- The wording of a file that does not open. -/
def DiskFault.message : DiskFault → String
  | .refused number reason path => s!"[Errno {number}] {reason}: {Text.quoted path}"
  | .unusable message => message

/-- The files that names lead to. -/
abbrev Disk := String → Except DiskFault String

end Reckoner
