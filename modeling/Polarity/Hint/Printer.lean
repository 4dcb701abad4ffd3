import Polarity.Phase

/-!
# Writing hints

The text of a hint file: one character for each phase, with single spaces between them.
-/

namespace Polarity.Hint

/-- The text of a hint file with these phases. -/
def fileText (phases : List Phase) : String :=
  String.ofList ((phases.map Phase.mark).intersperse ' ')

end Polarity.Hint
