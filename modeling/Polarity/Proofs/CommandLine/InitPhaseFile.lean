import Polarity.CommandLine.InitPhaseFile
import Polarity.Proofs.Results
import Polarity.Proofs.Text.Utf8

/-!
# Arguments that name a hint file

An argument names a hint file if it is text as a whole and starts with the name of the option. It is
then the name of the option and a text after it, which is the path (`path?_eq_some_iff`): where the
bytes of one text start with those of another one, the texts do, too.

**Theorem (`extract_takes_all`).** All such arguments are taken out and no others, and the last one
counts. So nothing is left for a second time, and of two lists of arguments one after the other the
second one has precedence.
-/

namespace Polarity

namespace InitPhaseFile

variable {a : Argument} {p : Path} {args : List Argument}

/-- The argument is text that starts with the name of the option. -/
def Designates (a : Argument) : Prop := Utf8.IsText a ∧ Utf8.encode flag <+: a

instance : DecidablePred Designates := fun _ => inferInstanceAs (Decidable (_ ∧ _))

/-! ## One argument -/

theorem path?_eq (a : Argument) :
    path? a = if Designates a then some ⟨a.drop (Utf8.encode flag).length⟩ else none := by
  refine if_congr ?_ rfl rfl
  rw [Bool.and_eq_true, Utf8.isSome_decode_iff, List.isPrefixOf_iff_prefix, Designates]

theorem designates_iff : Designates a ↔ ∃ s, a = Utf8.encode (flag ++ s) := by
  constructor
  · rintro ⟨⟨t, rfl⟩, hflag⟩
    obtain ⟨s, rfl⟩ := Utf8.exists_append_of_prefix hflag
    exact ⟨s, rfl⟩
  · rintro ⟨s, rfl⟩
    exact ⟨⟨_, rfl⟩, Utf8.encode_append flag s ▸ List.prefix_append _ _⟩

/-- **An argument that names a path** is the name of the option and the path after it, both text. -/
theorem path?_eq_some_iff :
    path? a = some p ↔ ∃ s, a = Utf8.encode (flag ++ s) ∧ p = .ofText s := by
  have hpath (s : String) : path? (Utf8.encode (flag ++ s)) = some (.ofText s) := by
    rw [path?_eq, if_pos (designates_iff.2 ⟨s, rfl⟩), Utf8.encode_append, List.drop_left]
    rfl
  constructor
  · intro h
    have hdesignates : Designates a := by
      by_contra hnot
      simp [path?_eq, hnot] at h
    obtain ⟨s, rfl⟩ := designates_iff.1 hdesignates
    exact ⟨s, rfl, Option.some.inj (h.symm.trans (hpath s))⟩
  · rintro ⟨s, rfl, rfl⟩
    exact hpath s

theorem path?_eq_none_iff : path? a = none ↔ ¬ Designates a := by
  rw [path?_eq]
  split <;> simp [*]

/-! ## All arguments -/

theorem extract_rest (args : List Argument) :
    (extract args).2 = args.filter (¬ Designates ·) := by
  refine List.filter_congr fun a _ => ?_
  rw [Bool.eq_iff_iff, Option.isNone_iff_eq_none, path?_eq_none_iff, decide_eq_true_iff]

theorem extract_path_eq_some_iff :
    (extract args).1 = some p ↔ ∃ before s after,
      args = before ++ Utf8.encode (flag ++ s) :: after ∧ (∀ a ∈ after, ¬ Designates a) ∧
        p = .ofText s := by
  simp only [extract, getLast?_filterMap_eq_some_iff, path?_eq_some_iff, path?_eq_none_iff]
  constructor
  · rintro ⟨before, a, after, rfl, ⟨s, rfl, rfl⟩, hafter⟩
    exact ⟨before, s, after, rfl, hafter, rfl⟩
  · rintro ⟨before, s, after, rfl, hafter, rfl⟩
    exact ⟨before, _, after, rfl, ⟨s, rfl, rfl⟩, hafter⟩

theorem extract_path_eq_none_iff : (extract args).1 = none ↔ (extract args).2 = args := by
  rw [extract_rest, List.filter_eq_self]
  simp [extract, path?_eq_none_iff]

theorem extract_append (first second : List Argument) :
    extract (first ++ second) = ((extract second).1.or (extract first).1,
      (extract first).2 ++ (extract second).2) := by
  simp [extract, List.getLast?_append]

/-- What is left names no hint file. -/
theorem extract_extract (args : List Argument) :
    extract (extract args).2 = (none, (extract args).2) := by
  have hrest : (extract (extract args).2).2 = (extract args).2 := by
    simp only [extract_rest, List.filter_filter, Bool.and_self]
  exact Prod.ext (extract_path_eq_none_iff.2 hrest) hrest

/-- **All arguments that name a hint file are taken out**, and no others: those that stay are the ones
that are not text or do not start with the name of the option, in their order. The path is that of
the last argument taken out, and there is none just in case no argument is. Doing it again finds
nothing, and of two lists one after the other the second one has precedence. -/
theorem extract_takes_all (args : List Argument) :
    (extract args).2 = args.filter (¬ Designates ·) ∧
    (∀ p, (extract args).1 = some p ↔ ∃ before s after,
      args = before ++ Utf8.encode (flag ++ s) :: after ∧ (∀ a ∈ after, ¬ Designates a) ∧
        p = .ofText s) ∧
    ((extract args).1 = none ↔ (extract args).2 = args) ∧
    extract (extract args).2 = (none, (extract args).2) ∧
    ∀ later, extract (args ++ later) =
      ((extract later).1.or (extract args).1, (extract args).2 ++ (extract later).2) :=
  ⟨extract_rest args, fun _ => extract_path_eq_some_iff, extract_path_eq_none_iff,
    extract_extract args, extract_append args⟩

/-- Two paths, the last of which is empty, and between them an argument that is no text. -/
def threefold : List Argument :=
  [Utf8.encode (flag ++ "a"), Utf8.encode flag ++ [0xFF], Utf8.encode flag]

theorem extract_takes_all_threefold :
    (extract threefold).2 = [Utf8.encode flag ++ [0xFF]] ∧
      (extract threefold).1 = some (.ofText "") := by
  obtain ⟨hrest, hpath, -⟩ := extract_takes_all threefold
  refine ⟨hrest.trans (by decide +kernel), (hpath _).2 ⟨threefold.take 2, "", [], ?_, nofun, rfl⟩⟩
  decide +kernel

end InitPhaseFile

end Polarity
