import Mathlib.Data.List.Count
import Polarity.CommandLine.Arguments

/-!
# One argument more

What an option adds to the arguments among which it is put, when it takes no value.

**Scanning.** An argument is the separator, or it adds to what is found, or it cannot stand where it
is (`scan?_cons`). So an option that is put between other arguments is found between what was found
there, or it is a positional argument if a separator stands before it (`scan?_insert`). The values of
all options and the other options without a value are then as before.
-/

namespace Polarity.Switch

variable {switches : List Switch} {pending : Option String} {q : Argument}
  {before after : List Argument} {front back found found' : List Occurrence} {name : String}

/-! ## Scanning -/

/-- **What an argument does to a scan**: what comes after the separator is positional, another argument
adds to what is found, or no arguments are accepted in which it comes next. -/
theorem scan?_cons (switches : List Switch) (pending : Option String) (a : Argument) :
    (∀ later, scan? switches pending (a :: later) = some (later.map .positional)) ∨
      (∃ shown next, ∀ later, scan? switches pending (a :: later) =
        (scan? switches next later).map (shown ++ ·)) ∨
      ∀ later, scan? switches pending (a :: later) = none := by
  cases pending with
  | some waiting =>
    cases hshape : a.shape with
    | plain => exact .inr (.inl ⟨[.value waiting a], none, fun later => by simp [scan?, hshape]⟩)
    | _ => exact .inr (.inr fun later => by simp [scan?, hshape])
  | none =>
    cases hshape : a.shape with
    | plain => exact .inr (.inl ⟨[.positional a], none, fun later => by simp [scan?, hshape]⟩)
    | separator => exact .inl fun later => by simp [scan?, hshape]
    | long long attached =>
      cases hs : ofName? switches long with
      | none => exact .inr (.inr fun later => by simp [scan?, hshape, hs])
      | some s =>
        cases hread : readLong s attached with
        | none => exact .inr (.inr fun later => by simp [scan?, hshape, hs, hread])
        | some read =>
          obtain ⟨shown, next⟩ := read
          refine .inr (.inl ⟨shown, next, fun later => ?_⟩)
          cases hscan : scan? switches next later <;> simp [scan?, hshape, hs, hread, hscan]
    | short names =>
      cases hread : readShort switches names with
      | none => exact .inr (.inr fun later => by simp [scan?, hshape, hread])
      | some read =>
        obtain ⟨shown, next⟩ := read
        refine .inr (.inl ⟨shown, next, fun later => ?_⟩)
        cases hscan : scan? switches next later <;> simp [scan?, hshape, hread, hscan]

/-- The argument is this option, which takes no value, and nothing else. -/
inductive IsFlag (switches : List Switch) (q : Argument) (name : String) : Prop
  | long {s : Switch} {long : List UInt8} (hshape : q.shape = .long long none)
      (hs : ofName? switches long = some s) (hflag : s.takesValue = false) (hname : s.name = name)
  | short {s : Switch} {c : UInt8} (hshape : q.shape = .short [c])
      (hs : ofShort? switches c = some s) (hflag : s.takesValue = false) (hname : s.name = name)

theorem IsFlag.scan?_none (hq : IsFlag switches q name) (later : List Argument) :
    scan? switches none (q :: later) =
      (scan? switches none later).map (Occurrence.flag name :: ·) := by
  cases hq with
  | long hshape hs hflag hname =>
    cases hscan : scan? switches none later <;>
      simp [scan?, hshape, hs, readLong, hflag, hname, hscan]
  | short hshape hs hflag hname =>
    cases hscan : scan? switches none later <;>
      simp [scan?, hshape, readShort, hs, hflag, hname, hscan]

theorem IsFlag.scan?_some (hq : IsFlag switches q name) (waiting : String)
    (later : List Argument) : scan? switches (some waiting) (q :: later) = none := by
  cases hq with
  | long hshape => simp [scan?, hshape]
  | short hshape => simp [scan?, hshape]

theorem scan?_insert (hq : IsFlag switches q name)
    (h : scan? switches pending (before ++ after) = some found)
    (h' : scan? switches pending (before ++ q :: after) = some found') :
    ∃ front back, found = front ++ back ∧
      (found' = front ++ .flag name :: back ∨ found' = front ++ .positional q :: back) := by
  induction before generalizing pending found found' with
  | nil =>
    cases pending with
    | some waiting => simp [hq.scan?_some] at h'
    | none =>
      rw [List.nil_append] at h h'
      rw [hq.scan?_none, h, Option.map_some, Option.some.injEq] at h'
      exact ⟨[], found, rfl, .inl h'.symm⟩
  | cons a before ih =>
    rcases scan?_cons switches pending a with hstep | ⟨shown, next, hstep⟩ | hstep
    · rw [List.cons_append, hstep, Option.some.injEq] at h h'
      refine ⟨before.map .positional, after.map .positional, ?_, .inr ?_⟩
      · rw [← h, List.map_append]
      · rw [← h', List.map_append, List.map_cons]
    · rw [List.cons_append, hstep, Option.map_eq_some_iff] at h h'
      obtain ⟨rest, hrest, rfl⟩ := h
      obtain ⟨rest', hrest', rfl⟩ := h'
      obtain ⟨front, back, rfl, hinsert⟩ := ih hrest hrest'
      refine ⟨shown ++ front, back, by rw [List.append_assoc], ?_⟩
      rcases hinsert with rfl | rfl
      · exact .inl (List.append_assoc ..).symm
      · exact .inr (List.append_assoc ..).symm
    · rw [List.cons_append, hstep] at h
      cases h

/-! ## What is asked of what was found -/

theorem value?_insert_flag (wanted : String) (front back : List Occurrence) (name : String) :
    value? wanted (front ++ .flag name :: back) = value? wanted (front ++ back) := by
  simp [value?, List.filterMap_append]

theorem positionals_insert_flag (front back : List Occurrence) (name : String) :
    positionals (front ++ .flag name :: back) = positionals (front ++ back) := by
  simp [positionals, List.filterMap_append]

theorem length_positionals_insert (front back : List Occurrence) (v : Argument) :
    (positionals (front ++ .positional v :: back)).length =
      (positionals (front ++ back)).length + 1 := by
  simp [positionals, List.filterMap_append]
  omega

theorem flag?_insert_flag_of_ne {wanted : String} (hne : name ≠ wanted)
    (front back : List Occurrence) :
    flag? wanted (front ++ .flag name :: back) = flag? wanted (front ++ back) := by
  have hcount : (front ++ .flag name :: back).count (.flag wanted) =
      (front ++ back).count (.flag wanted) := by
    simp [List.count_append, hne]
  rw [flag?, flag?, hcount]

/-- An option that is given one more time is given now and was not before. -/
theorem flag?_insert_flag {given given' : Bool} (h : flag? name (front ++ back) = some given)
    (h' : flag? name (front ++ .flag name :: back) = some given') :
    given = false ∧ given' = true := by
  have hcount : (front ++ .flag name :: back).count (.flag name) =
      (front ++ back).count (.flag name) + 1 := by
    simp [List.count_append]
    omega
  rw [flag?, hcount] at h'
  rw [flag?] at h
  split at h <;> simp_all

end Polarity.Switch
