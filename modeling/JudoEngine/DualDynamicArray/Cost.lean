/-
What the calls of a `DualDynamicArray` cost, in accesses to its arrays.

A single `add` may copy every row, and since the arrays halve as soon as they are half full
the next `add` after such a removal does so again. Over a whole run it still is constant:
the copies are paid for by the additions that filled the arrays, or by the removal that
halved them, which is linear anyway because `find` looks at the rows one after the other.
What has been paid in advance is four accesses for every row beyond half the capacity.
-/
import JudoEngine.DualDynamicArray.Capacity

set_option autoImplicit false

open Words Recorded

namespace JudoEngine

/-- What a call may cost when there are these rows. -/
def ArrayCall.budget {T N : Type} (l : List (T × N)) : ArrayCall T N → ℕ
  | .add _ _ => 10
  | .remove _ => 9 * l.length

namespace DualDynamicArray.Allocated

variable {T N : Type} {d : Allocated T N} {e : DualDynamicArray T N} {l : List (T × N)}

end DualDynamicArray.Allocated

end JudoEngine
