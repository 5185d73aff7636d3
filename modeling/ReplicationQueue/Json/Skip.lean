import ReplicationQueue.Json.Literal
import ReplicationQueue.Json.Number

/-! Passing over a value without looking at it. Only the form counts: there is no limit on the
nesting or on the size of numbers. The open brackets around the place that is read are a list,
innermost first. -/

namespace ReplicationQueue.Json

def isSpace (b : UInt8) : Bool :=
  b = 32 || b = 10 || b = 9 || b = 13

/-- The rest of the text from the next byte that is not blank. -/
def dropSpace (s : Bytes) : Bytes :=
  s.dropWhile isSpace

theorem length_dropSpace_le (s : Bytes) : (dropSpace s).length ≤ s.length :=
  (List.dropWhile_suffix _).length_le

/-- Reads the rest of a word whose first letter is known. -/
def readWord : Bytes → Bytes → Except Fault Bytes
  | [], s => .ok s
  | _ :: _, [] => .error (.ended .value)
  | w :: ws, c :: r => if c = w then readWord ws r else .error .expectedWord

def wordNull : Bytes := ['u', 'l', 'l'].map (·.toUInt8)
def wordTrue : Bytes := ['r', 'u', 'e'].map (·.toUInt8)
def wordFalse : Bytes := ['a', 'l', 's', 'e'].map (·.toUInt8)

inductive Bracket where
  | list
  | object
  deriving DecidableEq, Repr

/-- Passes over a value that has no parts, given its first byte. -/
def skipAtom (c : UInt8) (r : Bytes) : Except Fault Bytes :=
  if c = 'n'.toUInt8 then readWord wordNull r
  else if c = 't'.toUInt8 then readWord wordTrue r
  else if c = 'f'.toUInt8 then readWord wordFalse r
  else if c = '-'.toUInt8 then skipNumber r
  else if isDigit c then skipNumber (c :: r)
  else if c = quote then skipLiteral r
  else .error .expectedValue

/-- Passes over the key of a member and the colon. -/
def skipKey (s : Bytes) : Except Fault Bytes :=
  match dropSpace s with
  | [] => .error (.ended .object)
  | c :: r =>
    if c ≠ quote then .error .keyNotString
    else
      match skipLiteral r with
      | .error fault => .error fault
      | .ok rest =>
        match dropSpace rest with
        | [] => .error (.ended .object)
        | d :: r => if d = ':'.toUInt8 then .ok r else .error .expectedColon

theorem length_skipLiteral_lt {s rest : Bytes} (h : skipLiteral s = .ok rest) :
    rest.length < s.length := by
  fun_induction skipLiteral s <;> simp_all <;> omega

theorem length_readWord_le {w s rest : Bytes} (h : readWord w s = .ok rest) :
    rest.length ≤ s.length := by
  fun_induction readWord w s <;> simp_all
  omega

theorem length_dropWhile_le {p : UInt8 → Bool} (s : Bytes) : (s.dropWhile p).length ≤ s.length :=
  (List.dropWhile_suffix _).length_le

theorem length_skipExponent_le {s rest : Bytes} (h : skipExponent s = .ok rest) :
    rest.length ≤ s.length := by
  unfold skipExponent at h
  cases s with
  | nil => simp [startsWithDigit] at h
  | cons c r =>
    dsimp only at h
    split at h
    · split at h
      · cases h
        exact Nat.le_succ_of_le (length_dropWhile_le r)
      · cases h
    · split at h
      · cases h
        exact length_dropWhile_le (c :: r)
      · cases h

theorem length_skipFraction_le {s rest : Bytes} (h : skipFraction s = .ok rest) :
    rest.length ≤ s.length := by
  unfold skipFraction at h
  cases s with
  | nil =>
    cases h
    exact Nat.le_refl _
  | cons c r =>
    have hd := length_dropWhile_le (p := isDigit) r
    dsimp only at h
    split at h
    · split at h
      · cases h
      · split at h
        · cases h
          exact Nat.zero_le _
        · rename_i e tail heq
          rw [heq] at hd
          split at h
          · have he := Nat.le_succ_of_le (length_skipExponent_le h)
            exact Nat.le_succ_of_le (Nat.le_trans he hd)
          · cases h
            exact Nat.le_succ_of_le hd
    · split at h
      · exact Nat.le_succ_of_le (length_skipExponent_le h)
      · cases h
        exact Nat.le_refl _

theorem length_skipNumber_lt {s rest : Bytes} (h : skipNumber s = .ok rest) :
    rest.length < s.length := by
  cases s with
  | nil => simp [skipNumber] at h
  | cons c r =>
    have hd := length_dropWhile_le (p := isDigit) r
    simp only [skipNumber] at h
    split at h
    · cases h
    · split at h
      · split at h
        · cases h
        · exact Nat.lt_succ_of_le (length_skipFraction_le h)
      · exact Nat.lt_succ_of_le (Nat.le_trans (length_skipFraction_le h) hd)

theorem length_skipAtom_le {c : UInt8} {r rest : Bytes} (h : skipAtom c r = .ok rest) :
    rest.length ≤ r.length := by
  unfold skipAtom at h
  repeat' split at h
  · exact length_readWord_le h
  · exact length_readWord_le h
  · exact length_readWord_le h
  · exact Nat.le_of_lt (length_skipNumber_lt h)
  · exact Nat.le_of_lt_succ (length_skipNumber_lt h)
  · exact Nat.le_of_lt (length_skipLiteral_lt h)
  · cases h

theorem length_skipKey_lt {s rest : Bytes} (h : skipKey s = .ok rest) :
    rest.length < s.length := by
  unfold skipKey at h
  have hs := length_dropSpace_le s
  split at h
  · cases h
  · rename_i c r heq
    rw [heq] at hs
    split at h
    · cases h
    · split at h
      · cases h
      · rename_i tail hlit
        have := length_skipLiteral_lt hlit
        have ht := length_dropSpace_le tail
        split at h
        · cases h
        · rename_i d r' heq'
          rw [heq'] at ht
          simp only [List.length_cons] at hs ht
          split at h
          · cases h
            omega
          · cases h

mutual

/-- Passes over a value inside the open brackets `outer`, and on until all of them are closed. -/
def skipValue (outer : List Bracket) (s : Bytes) : Except Fault Bytes :=
  match _hs : dropSpace s with
  | [] => .error (.ended .value)
  | c :: r =>
    if c = '['.toUInt8 then
      match _hr : dropSpace r with
      | [] => .error (.ended .list)
      | d :: r' => if d = ']'.toUInt8 then skipRest outer r' else skipValue (.list :: outer) r
    else if c = '\x7b'.toUInt8 then
      match _hr : dropSpace r with
      | [] => .error (.ended .object)
      | d :: r' => if d = '\x7d'.toUInt8 then skipRest outer r' else skipMember outer r
    else
      match _ha : skipAtom c r with
      | .error fault => .error fault
      | .ok rest => skipRest outer rest
termination_by s.length
decreasing_by
  all_goals
    have h := length_dropSpace_le s
    rw [_hs, List.length_cons] at h
  · have h' := length_dropSpace_le r
    rw [_hr, List.length_cons] at h'
    omega
  · omega
  · have h' := length_dropSpace_le r
    rw [_hr, List.length_cons] at h'
    omega
  · omega
  · have := length_skipAtom_le _ha
    omega

/-- Passes over a member of an object inside `outer`. -/
def skipMember (outer : List Bracket) (s : Bytes) : Except Fault Bytes :=
  match _hk : skipKey s with
  | .error fault => .error fault
  | .ok rest => skipValue (.object :: outer) rest
termination_by s.length
decreasing_by exact length_skipKey_lt _hk

/-- Goes on after a value until the open brackets are closed. -/
def skipRest (outer : List Bracket) (s : Bytes) : Except Fault Bytes :=
  match outer with
  | [] => .ok s
  | .list :: outer =>
    match _hs : dropSpace s with
    | [] => .error (.ended .list)
    | c :: r =>
      if c = ','.toUInt8 then skipValue (.list :: outer) r
      else if c = ']'.toUInt8 then skipRest outer r
      else .error .expectedCommaOrBracket
  | .object :: outer =>
    match _hs : dropSpace s with
    | [] => .error (.ended .object)
    | c :: r =>
      if c = ','.toUInt8 then skipMember outer r
      else if c = '\x7d'.toUInt8 then skipRest outer r
      else .error .expectedCommaOrBrace
termination_by s.length
decreasing_by
  all_goals
    have h := length_dropSpace_le s
    rw [_hs, List.length_cons] at h
    omega

end

/-- Skipping leaves no more than there was, and less when brackets are still open. -/
theorem length_skip (n : Nat) :
    (∀ outer s rest, s.length = n → skipValue outer s = .ok rest → rest.length < n) ∧
    (∀ outer s rest, s.length = n → skipMember outer s = .ok rest → rest.length < n) ∧
    (∀ outer s rest, s.length = n → skipRest outer s = .ok rest → rest.length ≤ n) := by
  induction n using Nat.strongRecOn with
  | ind n ih =>
    have value : ∀ outer s rest, s.length = n → skipValue outer s = .ok rest →
        rest.length < n := by
      intro outer s rest hn h
      rw [skipValue] at h
      have hs := length_dropSpace_le s
      split at h
      · cases h
      · rename_i c r heq
        rw [heq, List.length_cons] at hs
        have hr := length_dropSpace_le r
        split at h
        · split at h
          · cases h
          · rename_i d r' heq'
            rw [heq', List.length_cons] at hr
            split at h
            · have := (ih r'.length (by omega)).2.2 _ _ _ rfl h
              omega
            · have := (ih r.length (by omega)).1 _ _ _ rfl h
              omega
        · split at h
          · split at h
            · cases h
            · rename_i d r' heq'
              rw [heq', List.length_cons] at hr
              split at h
              · have := (ih r'.length (by omega)).2.2 _ _ _ rfl h
                omega
              · have := (ih r.length (by omega)).2.1 _ _ _ rfl h
                omega
          · split at h
            · cases h
            · rename_i tail ha
              have := length_skipAtom_le ha
              have := (ih tail.length (by omega)).2.2 _ _ _ rfl h
              omega
    refine ⟨value, ?_, ?_⟩
    · intro outer s rest hn h
      rw [skipMember] at h
      split at h
      · cases h
      · rename_i tail hk
        have := length_skipKey_lt hk
        have := (ih tail.length (by omega)).1 _ _ _ rfl h
        omega
    · intro outer s rest hn h
      have hs := length_dropSpace_le s
      match outer with
      | [] =>
        rw [skipRest] at h
        cases h
        omega
      | .list :: outer =>
        rw [skipRest] at h
        split at h
        · cases h
        · rename_i c r heq
          rw [heq, List.length_cons] at hs
          split at h
          · have := (ih r.length (by omega)).1 _ _ _ rfl h
            omega
          · split at h
            · have := (ih r.length (by omega)).2.2 _ _ _ rfl h
              omega
            · cases h
      | .object :: outer =>
        rw [skipRest] at h
        split at h
        · cases h
        · rename_i c r heq
          rw [heq, List.length_cons] at hs
          split at h
          · have := (ih r.length (by omega)).2.1 _ _ _ rfl h
            omega
          · split at h
            · have := (ih r.length (by omega)).2.2 _ _ _ rfl h
              omega
            · cases h

theorem length_skipValue_lt {outer : List Bracket} {s rest : Bytes}
    (h : skipValue outer s = .ok rest) : rest.length < s.length :=
  (length_skip s.length).1 _ _ _ rfl h

end ReplicationQueue.Json
