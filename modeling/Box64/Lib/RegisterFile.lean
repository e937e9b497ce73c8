import Mathlib.Data.BitVec

/-!
# Register files

The numerals of `Fin 16` and of `Fin 32` name registers.
-/

namespace RegisterFile

instance (priority := 2000) sixteen : NeZero 16 := ⟨by decide⟩

instance (priority := 2000) thirtyTwo : NeZero 32 := ⟨by decide⟩

end RegisterFile
