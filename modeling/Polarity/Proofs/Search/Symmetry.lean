import Polarity.Proofs.Search.Lockstep

/-!
# Signs are treated alike

The mirror image of a formula is searched like the formula itself, from the mirror image of the
solver, as long as a sign is chosen for variables of which nothing is known. Without such a choice
they would be made true on both sides.
-/

namespace Polarity.Solver

variable {f : Formula} {s t : Solver}

theorem paired_neg (hs : s.SizedTo f) (hinitial : s.options.initialPhase.isSet = true) :
    s.Paired ⟨true, true, true⟩ (-s) where
  store := ⟨hs.consistent, rfl, ⟨PhaseArray.size_mirror (m := true), fun _ => rfl⟩, rfl,
    ⟨PhaseArray.size_mirror (m := true), fun _ => rfl⟩⟩
  engine := rfl
  useTarget := rfl
  seen _ := rfl
  initial := rfl
  set _ := hinitial

theorem Paired.eq_neg (h : s.Paired ⟨true, true, true⟩ t) (hoptions : t.options = (-s).options)
    (hfile : t.initPhaseFile = s.initPhaseFile) (hlocked : t.locked = s.locked) : t = -s := by
  obtain ⟨hstore, hengine, -, -, -, -⟩ := h
  obtain ⟨-, hassignment, hbest, hsaved, htarget⟩ := hstore
  have hbest := hbest.entries rfl
  have htarget := htarget.entries rfl
  obtain ⟨options, ⟨a, ⟨b, p, q⟩⟩, engine, file, locked⟩ := t
  subst hoptions hfile hlocked hengine hassignment hbest hsaved htarget
  rfl

/-- **Global negation.** The search of the mirrored formula from the mirrored solver gives the
mirrored answer, and it ends in the mirror image of the solver in which the search of the formula
ends, counters included. -/
theorem search_neg (hf : f.WellFormed) (hs : s.SizedTo f)
    (hinitial : s.options.initialPhase.isSet = true) :
    ∃ o t, search f s = .ok o t ∧ search (-f) (-s) = .ok (-o) (-t) := by
  obtain ⟨o, t, t', ht, ht', h⟩ := search_of_paired hf hs (paired_neg hs hinitial)
  obtain ⟨hoptions, hfile, hlocked⟩ := search_rest ht
  obtain ⟨hoptions', hfile', hlocked'⟩ := search_rest ht'
  have hmirrored : (-s).options = (-t).options :=
    congrArg (fun o : Options => { o with initialPhase := -o.initialPhase }) hoptions.symm
  have heq := h.eq_neg (hoptions'.trans hmirrored) (hfile'.trans hfile.symm)
    (hlocked'.trans hlocked.symm)
  exact ⟨o, t, ht, heq ▸ ht'⟩

theorem search_neg_refusal :
    ∃ o t, search .refusal (blank {} 2) = .ok o t ∧
      search (-.refusal) (-blank {} 2) = .ok (-o) (-t) :=
  search_neg Formula.wellFormed_refusal (sizedTo_blank {} .refusal) rfl

end Polarity.Solver
