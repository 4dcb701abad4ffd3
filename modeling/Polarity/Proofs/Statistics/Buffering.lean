import Mathlib.Data.List.DropRight
import Polarity.Proofs.Text.Utf8
import Polarity.Statistics.Buffer

/-!
# What the buffer holds

Pieces are offered to a buffer in any order, and it is flushed at any time. A piece that is refused
may come before a shorter one that is taken, so that the text is no beginning of what was offered:
which pieces it is made of depends on what the buffer held when they came. A history (`Moment`) keeps
this, and with it the pieces that were taken since the last flush (`held`).

**Theorem (`holds_whole_pieces`).** After every history that starts with an empty buffer, at most 512
bytes are held, and they are the pieces that were taken since the last flush, as a whole and in order.
The next piece is taken just in case it has room. If the call that takes the bytes always takes some,
all of them go out and the buffer is empty.

The proof looks at one action at a time (`Holds.step`). A call that stops earlier still gets nothing
but a beginning of the bytes (`flushTo_prefix`).
-/

namespace Polarity.Buffer

variable {taken : List UInt8 → Int} {b : Buffer}

/-! ## Flushing -/

/-- A call that takes something of whatever it is offered. -/
def AlwaysTakes (taken : List UInt8 → Int) : Prop := ∀ rest, rest ≠ [] → 0 < taken rest

theorem drain_eq (htaken : AlwaysTakes taken) (bytes : List UInt8) : drain taken bytes = bytes := by
  induction bytes using drain.induct taken with
  | case1 bytes hstop =>
    rw [drain, if_pos hstop]
    rcases hstop with rfl | hnone
    · rfl
    · by_contra hbytes
      exact Int.not_lt.2 hnone (htaken bytes (Ne.symm hbytes))
  | case2 bytes hgo ih => rw [drain, if_neg hgo, ih, List.take_append_drop]

theorem drain_prefix (taken : List UInt8 → Int) (bytes : List UInt8) :
    drain taken bytes <+: bytes := by
  induction bytes using drain.induct taken with
  | case1 bytes hstop =>
    rw [drain, if_pos hstop]
    exact List.nil_prefix
  | case2 bytes hgo ih =>
    rw [drain, if_neg hgo]
    conv => rhs; rw [← List.take_append_drop (taken bytes).toNat bytes]
    exact (List.prefix_append_right_inj _).2 ih

/-- A call that always takes something gets what `flush` hands out. -/
theorem flushTo_eq (htaken : AlwaysTakes taken) (b : Buffer) :
    b.flushTo taken = (Utf8.encode b.flush.1, b.flush.2) := by
  rw [flushTo, drain_eq htaken]
  rfl

/-- **What goes out is a beginning of what was held**, also if the call fails on the way. -/
theorem flushTo_prefix (taken : List UInt8 → Int) (b : Buffer) :
    (b.flushTo taken).1 <+: Utf8.encode b.text :=
  drain_prefix taken _

/-! ## Histories -/

/-- What can be done to a buffer. -/
inductive Action where
  | write (piece : String)
  | flush (taken : List UInt8 → Int)

/-- The buffer after an action. -/
def Action.carry : Action → Buffer → Buffer
  | write piece, b => (b.write piece).2
  | flush taken, b => (b.flushTo taken).2

/-- The buffer after all actions. -/
def run (actions : List Action) (b : Buffer) : Buffer := actions.foldl (fun b a => a.carry b) b

/-- An action in a history, and the buffer to which it was done. -/
structure Moment where
  before : Buffer
  action : Action

/-- The moments of a history that starts from a buffer. -/
def moments (b : Buffer) : List Action → List Moment
  | [] => []
  | a :: later => ⟨b, a⟩ :: moments (a.carry b) later

/-- The buffer is flushed. -/
def Moment.flushes (m : Moment) : Bool :=
  match m.action with
  | .write _ => false
  | .flush _ => true

/-- The piece that is taken, if one is. -/
def Moment.piece? (m : Moment) : Option String :=
  match m.action with
  | .write piece => if (m.before.write piece).1 then some piece else none
  | .flush _ => none

/-- The pieces that were taken since the last flush. -/
def held (history : List Moment) : List String :=
  (history.rtakeWhile fun m => !m.flushes).filterMap Moment.piece?

theorem run_append_singleton (actions : List Action) (a : Action) (b : Buffer) :
    run (actions ++ [a]) b = a.carry (run actions b) := by
  simp [run]

theorem moments_append_singleton (actions : List Action) (a : Action) (b : Buffer) :
    moments b (actions ++ [a]) = moments b actions ++ [⟨run actions b, a⟩] := by
  induction actions generalizing b with
  | nil => rfl
  | cons first later ih =>
    simp only [List.cons_append, moments, ih]
    rfl

theorem held_write (history : List Moment) (b : Buffer) (piece : String) :
    held (history ++ [⟨b, .write piece⟩]) =
      held history ++ if (b.write piece).1 then [piece] else [] := by
  rw [held, List.rtakeWhile_concat_pos _ _ _ rfl, List.filterMap_append, ← held]
  cases h : (b.write piece).1 <;> simp [Moment.piece?, h]

theorem held_flush (history : List Moment) (b : Buffer) (taken : List UInt8 → Int) :
    held (history ++ [⟨b, .flush taken⟩]) = [] := by
  rw [held, List.rtakeWhile_concat_neg _ _ _ (by simp [Moment.flushes]), List.filterMap_nil]

/-! ## The invariant -/

/-- What a buffer holds has room in it, and is made of the pieces that it has taken since it was last
flushed. -/
structure Holds (b : Buffer) (history : List Moment) : Prop where
  size_le : b.size ≤ capacity
  text_eq : b.text = String.join (held history)

theorem holds_empty : Holds {} [] := ⟨Nat.zero_le _, rfl⟩

theorem Holds.step {history : List Moment} (h : b.Holds history) (a : Action) :
    (a.carry b).Holds (history ++ [⟨b, a⟩]) := by
  cases a with
  | flush taken => exact ⟨Nat.zero_le _, by rw [held_flush]; rfl⟩
  | write piece =>
    by_cases hroom : b.size + piece.utf8ByteSize ≤ capacity
    · have htaken : b.write piece = (true, ⟨b.text ++ piece⟩) := if_pos hroom
      have hsize : size ⟨b.text ++ piece⟩ = b.size + piece.utf8ByteSize :=
        String.utf8ByteSize_append
      rw [Action.carry, htaken]
      refine ⟨hsize.trans_le hroom, ?_⟩
      rw [held_write, htaken, if_pos rfl, String.join_append, h.text_eq]
      simp [String.join]
    · have hrefused : b.write piece = (false, b) := if_neg hroom
      rw [Action.carry, hrefused]
      refine ⟨h.size_le, ?_⟩
      rw [held_write, hrefused, if_neg Bool.false_ne_true, List.append_nil, h.text_eq]

theorem holds_run (actions : List Action) : (run actions {}).Holds (moments {} actions) := by
  -- From the latest action backwards, since a flush forgets all that came before it.
  induction actions using List.reverseRecOn with
  | nil => exact holds_empty
  | append_singleton actions a ih =>
    rw [run_append_singleton, moments_append_singleton]
    exact ih.step a

/-- A piece is taken just in case it is no longer than the room that is left. -/
theorem Holds.write_eq {history : List Moment} (h : b.Holds history) (piece : String) :
    b.write piece =
      if piece.utf8ByteSize ≤ capacity - b.size then (true, ⟨b.text ++ piece⟩) else (false, b) := by
  have hroom : piece.utf8ByteSize ≤ capacity - b.size ↔ b.size + piece.utf8ByteSize ≤ capacity := by
    have := h.size_le
    omega
  rw [write]
  simp only [hroom]

theorem encode_join (pieces : List String) :
    Utf8.encode (String.join pieces) = pieces.flatMap Utf8.encode := by
  induction pieces with
  | nil => rfl
  | cons piece later ih => rw [String.join_cons, Utf8.encode_append, ih, List.flatMap_cons]

/-- **The buffer never overruns and never splits a piece.** After every history, also one with pieces
that are refused and flushes that fail, at most 512 bytes are held. A piece is taken if it is no
longer than the room that is left, and refused otherwise, with nothing changed. The text is made of
the pieces that were taken since the last flush. A call that always takes something gets all of their
bytes, and the buffer is empty then. -/
theorem holds_whole_pieces (actions : List Action) :
    (run actions {}).size ≤ 512 ∧
      (∀ piece, (run actions {}).write piece =
        if piece.utf8ByteSize ≤ 512 - (run actions {}).size then
          (true, ⟨(run actions {}).text ++ piece⟩)
        else (false, run actions {})) ∧
      (run actions {}).text = String.join (held (moments {} actions)) ∧
      ∀ taken, AlwaysTakes taken →
        (run actions {}).flushTo taken =
          ((held (moments {} actions)).flatMap Utf8.encode, {}) := by
  have hholds := holds_run actions
  refine ⟨hholds.size_le, hholds.write_eq, hholds.text_eq, fun taken htaken => ?_⟩
  rw [flushTo_eq htaken, flush, hholds.text_eq, encode_join]

/-- A piece that is refused stands between two that are taken, and the last one fills the buffer. -/
def filling : List Action :=
  [.write "lost", .flush fun _ => -1, .write (String.ofList (List.replicate 510 'x')),
    .write "été", .write "é"]

theorem holds_whole_pieces_filling :
    AlwaysTakes (fun _ => 1) ∧
      held (moments {} filling) = [String.ofList (List.replicate 510 'x'), "é"] ∧
      (run filling {}).size = 512 ∧
      (run filling {}).write "!" = (false, run filling {}) ∧
      (run filling {}).flushTo (fun _ => 1) =
        (List.replicate 510 0x78 ++ [0xC3, 0xA9], {}) := by
  have hone : AlwaysTakes (fun _ => 1) := fun _ _ => Int.one_pos
  have hheld : held (moments {} filling) = [String.ofList (List.replicate 510 'x'), "é"] := by
    decide +kernel
  have hsize : (run filling {}).size = 512 := by decide +kernel
  obtain ⟨-, hwrite, -, hflush⟩ := holds_whole_pieces filling
  refine ⟨hone, hheld, hsize, ?_, ?_⟩
  · rw [hwrite, hsize]
    exact if_neg (by decide)
  · have hbytes : [String.ofList (List.replicate 510 'x'), "é"].flatMap Utf8.encode =
        List.replicate 510 0x78 ++ [0xC3, 0xA9] := by decide +kernel
    rw [hflush _ hone, hheld, hbytes]

end Polarity.Buffer
