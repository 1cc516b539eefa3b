import Udaf.Lib.Bytes
import Mathlib.Data.List.Infix
import Mathlib.Data.List.TakeWhile

/-!
Files under their names. A path reaches the system as a C string, so its first NUL ends the name
and what stands behind it is not seen.
-/

namespace FileNames

open ByteString

abbrev Files := Bytes → Option Bytes

def cString (path : Bytes) : Bytes := path.takeWhile (· ≠ 0)

theorem cString_front (path : Bytes) : cString path <+: path := List.takeWhile_prefix _

theorem cString_eq {path : Bytes} (named : (0 : UInt8) ∉ path) : cString path = path := by
  rw [cString, List.takeWhile_eq_self_iff]
  intro byte member
  have other : byte ≠ 0 := fun nul => named (nul ▸ member)
  simpa using other

theorem cString_append {front : Bytes} (named : (0 : UInt8) ∉ front) (rest : Bytes) :
    cString (front ++ rest) = front ++ cString rest := by
  refine List.takeWhile_append_of_pos ?_
  intro byte member
  have other : byte ≠ 0 := fun nul => named (nul ▸ member)
  simpa using other

theorem cString_starts {front path : Bytes} (named : (0 : UInt8) ∉ front) (starts : front <+: path) :
    front <+: cString path := by
  obtain ⟨rest, rfl⟩ := starts
  rw [cString_append named]
  exact List.prefix_append _ _

end FileNames
