import Mathlib.Init

/-!
# Bytes and texts

A file's content, a command line and a `std::string` are byte sequences. Literals of the source
are written with `ascii`; `isspace` is C's in the "C" locale.
-/

namespace OtaBridge

abbrev Byte := UInt8

abbrev Text := List Byte

/-- The bytes of a source literal. -/
def ascii (s : String) : Text := s.toList.map fun c => UInt8.ofNat c.toNat

def isspace (b : Byte) : Bool := b == 32 || (9 ≤ b && b ≤ 13)

end OtaBridge
