/-! What became of a transition, and the tally of several. -/

namespace ReplicationQueue

inductive Outcome where
  /-- The transition happened. -/
  | applied
  /-- There was nothing to do: the source was gone already, or deletion is disabled. -/
  | skipped
  /-- The transition was prevented. An event tells why. -/
  | failed
  deriving DecidableEq, Repr

structure Summary where
  applied : Nat
  skipped : Nat
  failed : Nat
  deriving DecidableEq, Repr

namespace Summary

def empty : Summary := ⟨0, 0, 0⟩

def record (s : Summary) : Outcome → Summary
  | .applied => { s with applied := s.applied + 1 }
  | .skipped => { s with skipped := s.skipped + 1 }
  | .failed => { s with failed := s.failed + 1 }

def total (s : Summary) : Nat :=
  s.applied + s.skipped + s.failed

def ofOutcomes (outcomes : List Outcome) : Summary :=
  outcomes.foldl record empty

def describe (s : Summary) : String :=
  "applied: " ++ toString s.applied ++ ", skipped: " ++ toString s.skipped ++
    ", failed: " ++ toString s.failed

@[simp] theorem total_record (s : Summary) (o : Outcome) : (s.record o).total = s.total + 1 := by
  cases o <;> simp only [record, total] <;> omega

end Summary

end ReplicationQueue
