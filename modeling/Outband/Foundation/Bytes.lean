import Mathlib.Algebra.Order.Ring.Int
import Mathlib.Data.BitVec

/-!
# Bytes and tables of bytes

The instances that definitions over bytes need again and again, each under one name.
-/

namespace Outband.Foundation

/-- A table with an entry for each byte is not empty. -/
instance neZero_byteTable : NeZero 256 := ⟨by decide⟩

/-- Equality of bytes is decided bit by bit. -/
instance lawfulBEq_byte : LawfulBEq (BitVec 8) := inferInstance

end Outband.Foundation
