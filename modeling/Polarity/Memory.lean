import Polarity.Failure
import Polarity.Text.Numeral

/-!
# Sizes of tables

Which sizes a table in memory can have. A size is counted in 64 bits, and a block of memory is
smaller than half of what these can count. No memory holds a quarter.
-/

namespace Polarity.Memory

variable {n : Nat}

/-- The largest block of memory. -/
def largestBlock : Nat := 0x7FFFFFFFFFFFFFFF

/-- So many phases no memory can hold. -/
def limit : Nat := 0x4000000000000000

/-- A size that a table is to have, if it can have it. -/
def allow (size : Nat) : Except Fault Nat :=
  if Numeral.word < size then .error .overflow
  else if largestBlock < size then .error .capacity
  else if limit ≤ size then .error .outOfMemory
  else .ok size

theorem allow_eq (hn : n < limit) : allow n = .ok n := by
  have hlimit : limit = 0x4000000000000000 := rfl
  have hword : ¬ Numeral.word < n := by
    show ¬ 0xFFFFFFFFFFFFFFFF < n
    omega
  have hblock : ¬ largestBlock < n := by
    show ¬ 0x7FFFFFFFFFFFFFFF < n
    omega
  rw [allow, if_neg hword, if_neg hblock, if_neg (Nat.not_le.2 hn)]

theorem eq_of_allow {size : Nat} (h : allow n = .ok size) : size = n := by
  unfold allow at h
  split at h
  · cases h
  · split at h
    · cases h
    · split at h
      · cases h
      · exact (Except.ok.inj h).symm

theorem exists_allow_error (hn : limit ≤ n) : ∃ m, allow n = .error m := by
  unfold allow
  split
  · exact ⟨_, rfl⟩
  · split <;> exact ⟨_, rfl⟩

theorem lt_limit_of_allow {size : Nat} (h : allow n = .ok size) : n < limit := by
  rcases Nat.lt_or_ge n limit with hn | hn
  · exact hn
  · obtain ⟨m, hm⟩ := exists_allow_error hn
    simp [hm] at h

end Polarity.Memory
