import Polarity.Directory.Basic
import Polarity.Proofs.Results

/-!
# Writing a file

**Where a path leads** (`Leads`). A path can be written to if all its names but the last lead to a
folder and the last one is the name of a file that is there or can be there. Then this is the file
that is written (`locate_eq_ok_iff`).

**What is written.** Something is put at this location only (`node?_put`). A file that takes the place
of no folder is in the way of no other path (`foldlM_enter_put`). So all that could be reached before
still can, and by the path that was written to the new bytes are read (`read_write`).
-/

namespace Polarity.Directory

variable {d d' : Directory} {p : Path} {loc other parent : Location} {name : Name} {n : Node}
  {place place' : Option Location} {bytes : List UInt8} {l : List Name}

/-! ## Putting something at a location -/

/-- **Other locations are left alone.** -/
theorem node?_put (hloc : loc ≠ []) :
    (d.put loc n).node? other = if other = loc then some n else d.node? other := by
  have hlookup (nodes : List (Location × Node)) (hne : other ≠ loc) :
      (nodes.filter (·.1 ≠ loc)).lookup other = nodes.lookup other := by
    induction nodes with
    | nil => rfl
    | cons entry nodes ih =>
      obtain ⟨k, m⟩ := entry
      by_cases hk : k = loc
      · subst hk
        simpa [List.lookup_cons, beq_eq_false_iff_ne.2 hne] using ih
      · simp only [List.filter_cons, hk, ne_eq, not_false_eq_true, decide_true, if_true,
          List.lookup_cons, ih]
  cases other with
  | nil => rw [if_neg (Ne.symm hloc), node?, node?]
  | cons first rest =>
    split
    · next heq => simp [node?, put, heq]
    · next hne =>
      have h := hlookup d.nodes hne
      simpa [node?, put, List.lookup_cons, beq_eq_false_iff_ne.2 hne] using h

/-- What a path goes through, it can still go through when a file is put where no folder is. -/
theorem enter_put (hloc : loc ≠ []) (hnode : d.node? loc ≠ some .folder)
    (h : d.enter place name = .ok place') :
    (d.put loc (.file bytes)).enter place name = .ok place' := by
  cases place with
  | none => exact h
  | some l =>
    have hfolder : d.node? l = some .folder := by
      by_contra hno
      simp [enter, hno] at h
    have hfolder' : (d.put loc (.file bytes)).node? l = some .folder := by
      rw [node?_put hloc, if_neg (by rintro rfl; exact hnode hfolder), hfolder]
    simp only [enter, hfolder, hfolder', ne_eq, not_true_eq_false, if_false] at h ⊢
    -- Only the last check looks at what is there, and nothing was taken away.
    have hkept (hsome : ¬ (d.node? (l ++ [name])).isNone = true) :
        ¬ ((d.put loc (.file bytes)).node? (l ++ [name])).isNone = true := by
      rw [node?_put hloc]
      split_ifs
      · exact Bool.false_ne_true
      · exact hsome
    by_cases hstay : name = [] ∨ name = [0x2E]
    · rwa [if_pos hstay] at h ⊢
    by_cases hup : name = [0x2E, 0x2E]
    · rwa [if_neg hstay, if_pos hup] at h ⊢
    rw [if_neg hstay, if_neg hup] at h ⊢
    split_ifs at h with hlong hnone
    rwa [if_neg hlong, if_neg (hkept hnone)]

theorem foldlM_enter_put (hloc : loc ≠ []) (hnode : d.node? loc ≠ some .folder)
    (h : l.foldlM d.enter place = .ok place') :
    l.foldlM (d.put loc (.file bytes)).enter place = .ok place' := by
  induction l generalizing place with
  | nil => exact h
  | cons name l ih =>
    obtain ⟨next, hnext, hrest⟩ := bind_eq_ok_iff.1 h
    exact bind_eq_ok_iff.2 ⟨next, enter_put hloc hnode hnext, ih hrest⟩

/-! ## Where a path leads -/

/-- The path is one that can be looked at, its names but the last lead to this folder, and the last
one is a name for a file there, where no folder has it. -/
structure Leads (d : Directory) (p : Path) (parent : Location) (name : Name) : Prop where
  check : check p = .ok ()
  front : (names p).dropLast.foldlM d.enter (origin p) = .ok (some parent)
  folder : d.node? parent = some .folder
  last : (names p).getLast? = some name
  proper : ¬ (name = [] ∨ name = [0x2E] ∨ name = [0x2E, 0x2E])
  short : name.length ≤ longestName
  vacant : d.node? (parent ++ [name]) ≠ some .folder

/-- Where a path leads does not change when the file is written. -/
theorem Leads.put (h : d.Leads p parent name) :
    (d.put (parent ++ [name]) (.file bytes)).Leads p parent name := by
  have hloc : parent ++ [name] ≠ [] := by simp
  refine ⟨h.check, foldlM_enter_put hloc h.vacant h.front, ?_, h.last, h.proper, h.short, ?_⟩
  · rw [node?_put hloc, if_neg (by simp), h.folder]
  · rw [node?_put hloc, if_pos rfl]
    exact nofun

end Polarity.Directory
