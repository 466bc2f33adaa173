import OtaBridge.Apply.Error

/-!
# The command line of `ota-apply`

`parseArgs` walks the arguments after `argv[0]`; an option that takes a value consumes the next
argument, whatever it looks like.
-/

namespace OtaBridge.Apply

structure Args where
  image : Text := []
  bootconf : Text := ascii "/boot/extlinux/extlinux.conf"
  dryRun : Bool := false
  deriving DecidableEq, Repr

/-- How `parseArgs` ends: it returns, exits with status 0 after the usage text, or throws. -/
inductive Parsed where
  | args (a : Args)
  | exit
  | throw (e : Error)
  deriving DecidableEq, Repr

/-- The `for` loop, from the arguments that are left. -/
def parseLoop : List Text → Args → Parsed
  | [], a => .args a
  | k :: rest, a =>
    if k = ascii "--image" then
      match rest with
      | [] => .throw (.missingValue k)
      | v :: rest => parseLoop rest { a with image := v }
    else if k = ascii "--bootconf" then
      match rest with
      | [] => .throw (.missingValue k)
      | v :: rest => parseLoop rest { a with bootconf := v }
    else if k = ascii "--dry-run" then parseLoop rest { a with dryRun := true }
    else if k = ascii "-h" ∨ k = ascii "--help" then .exit
    else .throw (.unknownArgument k)

def parseArgs (argv : List Text) : Parsed :=
  match parseLoop (argv.drop 1) {} with
  | .args a => if a.image = [] then .throw .missingImage else .args a
  | other => other

example : parseArgs [ascii "ota-apply", ascii "--image", ascii "--dry-run", ascii "--dry-run"] =
    .args { image := ascii "--dry-run", dryRun := true } := by decide

/-- The arguments of a run that updates the boot config `conf`. -/
def confArgv (conf : Text) : List Text :=
  [ascii "ota-apply", ascii "--image", ascii "rootfs.ext4", ascii "--bootconf", conf]

def confArgs (conf : Text) : Args := { image := ascii "rootfs.ext4", bootconf := conf }

theorem parse_confArgv (conf : Text) : parseArgs (confArgv conf) = .args (confArgs conf) := by
  have other : ascii "--bootconf" ≠ ascii "--image" := by decide
  have image : ascii "rootfs.ext4" ≠ [] := by decide
  simp [parseArgs, parseLoop, confArgv, confArgs, other, image]

end OtaBridge.Apply
