import OtaBridge.Text

/-!
# The exceptions of `ota-apply`

Every `throw std::runtime_error` of the source, with the data its text is made of; `Error.what`
is that text. `strerror` belongs to the C library and stays a parameter.
-/

namespace OtaBridge.Apply

abbrev Errno := Nat

def ENOENT : Errno := 2
def ENOTTY : Errno := 25
def ENOSPC : Errno := 28

inductive Error where
  | openText (path : Text) (errno : Errno)
  | statImage (path : Text) (errno : Errno)
  | notRegular (path : Text)
  | openBlock (dev : Text) (errno : Errno)
  | ioctlSize (dev : Text) (errno : Errno)
  | openTemp (tmp : Text) (errno : Errno)
  | writeTemp (tmp : Text) (errno : Errno)
  | fsyncTemp (tmp : Text) (errno : Errno)
  | renameTemp (tmp path : Text) (errno : Errno)
  | noRootEntry
  | openImage (path : Text) (errno : Errno)
  | openTarget (dev : Text) (errno : Errno)
  | readImage (errno : Errno)
  | writeTarget (errno : Errno)
  | fsyncTarget (errno : Errno)
  | missingValue (opt : Text)
  | unknownArgument (arg : Text)
  | missingImage
  deriving DecidableEq, Repr

def Error.what (strerror : Errno → Text) : Error → Text
  | openText path e => ascii "Failed to open " ++ path ++ ascii ": " ++ strerror e
  | statImage path e => ascii "stat(" ++ path ++ ascii ") failed: " ++ strerror e
  | notRegular path => ascii "Update image is not a regular file: " ++ path
  | openBlock dev e => ascii "Failed to open block device " ++ dev ++ ascii ": " ++ strerror e
  | ioctlSize dev e => ascii "ioctl(BLKGETSIZE64) failed for " ++ dev ++ ascii ": " ++ strerror e
  | openTemp tmp e => ascii "Failed to open temp file " ++ tmp ++ ascii ": " ++ strerror e
  | writeTemp tmp e => ascii "Write failed to " ++ tmp ++ ascii ": " ++ strerror e
  | fsyncTemp tmp e => ascii "fsync failed for " ++ tmp ++ ascii ": " ++ strerror e
  | renameTemp tmp path e =>
    ascii "rename(" ++ tmp ++ ascii " -> " ++ path ++ ascii ") failed: " ++ strerror e
  | noRootEntry => ascii "extlinux.conf does not contain root=PARTLABEL=rootfsA/B"
  | openImage path e => ascii "Failed to open image " ++ path ++ ascii ": " ++ strerror e
  | openTarget dev e => ascii "Failed to open target device " ++ dev ++ ascii ": " ++ strerror e
  | readImage e => ascii "Read failed: " ++ strerror e
  | writeTarget e => ascii "Write to block device failed: " ++ strerror e
  | fsyncTarget e => ascii "fsync(target) failed: " ++ strerror e
  | missingValue opt => ascii "Missing value for " ++ opt
  | unknownArgument arg => ascii "Unknown argument: " ++ arg
  | missingImage => ascii "Missing required: --image <path>"

end OtaBridge.Apply
