import Mathlib.Data.List.TakeWhile
import ReplicationQueue.Proofs.Record

/-! The smallest parts of a JSON text: blanks, numbers and string literals. For each there is a
form, and the reader that passes over it finds that form, and no other, in front of what it leaves.
A literal that is looked at stands for bytes; one that is passed over need only have the form. -/

namespace ReplicationQueue.Json

/-! ### Blanks -/

def IsBlank (s : Bytes) : Prop :=
  ∀ b ∈ s, isSpace b = true

theorem isBlank_nil : IsBlank [] := by simp [IsBlank]

theorem IsBlank.append {a b : Bytes} (ha : IsBlank a) (hb : IsBlank b) : IsBlank (a ++ b) := by
  intro c hc
  exact (List.mem_append.1 hc).elim (ha c) (hb c)

theorem dropSpace_append {a : Bytes} (h : IsBlank a) (s : Bytes) :
    dropSpace (a ++ s) = dropSpace s :=
  List.dropWhile_append_of_pos h

theorem dropSpace_blank {a : Bytes} (h : IsBlank a) : dropSpace a = [] := by
  simpa [dropSpace] using dropSpace_append h []

theorem dropSpace_append_cons {a : Bytes} (h : IsBlank a) {c : UInt8} (hc : isSpace c = false)
    (r : Bytes) : dropSpace (a ++ c :: r) = c :: r := by
  rw [dropSpace_append h, Update.dropSpace_cons hc]

/-- The first byte after the blanks. -/
theorem dropSpace_eq_cons {s r : Bytes} {c : UInt8} (h : dropSpace s = c :: r) :
    ∃ a, IsBlank a ∧ s = a ++ c :: r := by
  refine ⟨s.takeWhile isSpace, fun b hb => ?_, ?_⟩
  · exact List.mem_takeWhile_imp hb
  · rw [← h, dropSpace, List.takeWhile_append_dropWhile]

theorem dropSpace_eq_nil {s : Bytes} (h : dropSpace s = []) : IsBlank s :=
  fun b hb => List.dropWhile_eq_nil_iff.1 h b hb

/-! ### Numbers -/

/-- One digit or more. -/
def IsDigits (s : Bytes) : Prop :=
  s ≠ [] ∧ ∀ b ∈ s, isDigit b = true

/-- The digits before the point, with no zero in front of others. -/
inductive IsWhole : Bytes → Prop where
  | zero : IsWhole ['0'.toUInt8]
  | digits {c : UInt8} {s : Bytes} (first : isDigit c = true) (nonzero : c ≠ '0'.toUInt8)
      (others : ∀ b ∈ s, isDigit b = true) : IsWhole (c :: s)

inductive IsFraction : Bytes → Prop where
  | absent : IsFraction []
  | point {s : Bytes} (digits : IsDigits s) : IsFraction ('.'.toUInt8 :: s)

def IsExponentSign (s : Bytes) : Prop :=
  s = [] ∨ s = ['+'.toUInt8] ∨ s = ['-'.toUInt8]

inductive IsExponent : Bytes → Prop where
  | absent : IsExponent []
  | mark {e : UInt8} {sign s : Bytes} (mark : isExponentMark e = true)
      (sign_eq : IsExponentSign sign) (digits : IsDigits s) : IsExponent (e :: (sign ++ s))

/-- A number without a sign. -/
inductive IsMagnitude : Bytes → Prop where
  | mk {whole fraction exponent : Bytes} (hw : IsWhole whole) (hf : IsFraction fraction)
      (he : IsExponent exponent) : IsMagnitude (whole ++ (fraction ++ exponent))

inductive IsNumber : Bytes → Prop where
  | positive {s : Bytes} (magnitude : IsMagnitude s) : IsNumber s
  | negative {s : Bytes} (magnitude : IsMagnitude s) : IsNumber ('-'.toUInt8 :: s)

/-- What stands after a number and cannot be a part of it. -/
def EndsNumber (t : Bytes) : Prop :=
  ∀ c r, t = c :: r → isDigit c = false ∧ c ≠ '.'.toUInt8 ∧ isExponentMark c = false

theorem EndsNumber.startsWithDigit {t : Bytes} (h : EndsNumber t) : startsWithDigit t = false := by
  cases t with
  | nil => rfl
  | cons c r => exact (h c r rfl).1

theorem dropWhile_digits {s t : Bytes} (h : ∀ b ∈ s, isDigit b = true)
    (ht : startsWithDigit t = false) : (s ++ t).dropWhile isDigit = t := by
  rw [List.dropWhile_append_of_pos h]
  cases t with
  | nil => rfl
  | cons c r => exact List.dropWhile_cons_of_neg (by simpa [startsWithDigit] using ht)

theorem startsWithDigit_append {s : Bytes} (h : IsDigits s) (t : Bytes) :
    startsWithDigit (s ++ t) = true := by
  obtain ⟨c, r, rfl⟩ := List.exists_cons_of_ne_nil h.1
  exact h.2 c (by simp)

/-- The digits that a text starts with. -/
theorem exists_digits {s : Bytes} (h : startsWithDigit s = true) :
    ∃ ds, IsDigits ds ∧ s = ds ++ s.dropWhile isDigit := by
  refine ⟨s.takeWhile isDigit, ⟨?_, fun b hb => ?_⟩, List.takeWhile_append_dropWhile.symm⟩
  · cases s with
    | nil => cases h
    | cons c r =>
      have hc : isDigit c = true := h
      simp [hc]
  · exact List.mem_takeWhile_imp hb

theorem skipExponent_sound {s rest : Bytes} (h : skipExponent s = .ok rest) :
    ∃ sign ds, IsExponentSign sign ∧ IsDigits ds ∧ s = sign ++ ds ++ rest := by
  have digits : ∀ {s rest : Bytes},
      (if startsWithDigit s then .ok (s.dropWhile isDigit) else .error .invalidNumber :
        Except Fault Bytes) = .ok rest → ∃ ds, IsDigits ds ∧ s = ds ++ rest := by
    intro s rest hs
    split at hs
    · rename_i hdigit
      obtain ⟨ds, hds, heq⟩ := exists_digits hdigit
      cases hs
      exact ⟨ds, hds, heq⟩
    · cases hs
  unfold skipExponent at h
  cases s with
  | nil => cases h
  | cons c r =>
    dsimp only at h
    split at h
    · rename_i hsign
      obtain ⟨ds, hds, rfl⟩ := digits h
      exact ⟨[c], ds, by rcases hsign with rfl | rfl <;> simp [IsExponentSign], hds, rfl⟩
    · obtain ⟨ds, hds, heq⟩ := digits h
      exact ⟨[], ds, .inl rfl, hds, heq⟩

theorem skipExponent_complete {sign ds t : Bytes} (hsign : IsExponentSign sign)
    (hds : IsDigits ds) (ht : startsWithDigit t = false) :
    skipExponent (sign ++ ds ++ t) = .ok t := by
  have hstart := startsWithDigit_append hds t
  have hdrop := dropWhile_digits hds.2 ht
  unfold skipExponent
  rcases hsign with rfl | rfl | rfl
  · obtain ⟨c, r, rfl⟩ := List.exists_cons_of_ne_nil hds.1
    have hc : isDigit c = true := hds.2 c (by simp)
    have hne : ¬(c = '+'.toUInt8 ∨ c = '-'.toUInt8) := by
      rintro (rfl | rfl) <;> exact absurd hc (by decide)
    simp only [List.nil_append, List.cons_append] at hstart hdrop ⊢
    rw [if_neg hne, if_pos hstart, hdrop]
  · simp only [List.cons_append, List.nil_append, true_or, if_true]
    rw [if_pos hstart, hdrop]
  · simp only [List.cons_append, List.nil_append, or_true, if_true]
    rw [if_pos hstart, hdrop]

theorem skipFraction_sound {s rest : Bytes} (h : skipFraction s = .ok rest) :
    ∃ f e, IsFraction f ∧ IsExponent e ∧ s = f ++ (e ++ rest) := by
  have exponent : ∀ {c : UInt8} {r : Bytes}, isExponentMark c = true → skipExponent r = .ok rest →
      ∃ e, IsExponent e ∧ c :: r = e ++ rest := by
    intro c r hc hr
    obtain ⟨sign, ds, hsign, hds, rfl⟩ := skipExponent_sound hr
    exact ⟨_, .mark hc hsign hds, by simp⟩
  unfold skipFraction at h
  cases s with
  | nil =>
    cases h
    exact ⟨[], [], .absent, .absent, rfl⟩
  | cons c r =>
    dsimp only at h
    split at h
    · rename_i hpoint
      subst hpoint
      split at h
      · cases h
      · rename_i hdigit
        obtain ⟨ds, hds, heq⟩ := exists_digits (by simpa using hdigit)
        refine ⟨'.'.toUInt8 :: ds, ?_⟩
        generalize r.dropWhile isDigit = tail at h heq
        subst heq
        split at h
        · cases h
          exact ⟨[], .point hds, .absent, by simp⟩
        · split at h
          · rename_i hmark
            obtain ⟨e, he, heq⟩ := exponent hmark h
            exact ⟨e, .point hds, he, by rw [heq]; simp⟩
          · cases h
            exact ⟨[], .point hds, .absent, by simp⟩
    · split at h
      · rename_i hmark
        obtain ⟨e, he, heq⟩ := exponent hmark h
        exact ⟨[], e, .absent, he, heq⟩
      · cases h
        exact ⟨[], [], .absent, .absent, rfl⟩

theorem skipFraction_complete {f e t : Bytes} (hf : IsFraction f) (he : IsExponent e)
    (ht : EndsNumber t) : skipFraction (f ++ (e ++ t)) = .ok t := by
  -- After the digits of the fraction comes the exponent's mark, or what ends the number.
  have tail : ∀ {c : UInt8} {r : Bytes}, e ++ t = c :: r →
      isDigit c = false ∧ c ≠ '.'.toUInt8 ∧
        (if isExponentMark c then skipExponent r else .ok (c :: r)) = .ok t := by
    intro c r hc
    cases he with
    | absent =>
      obtain ⟨hdigit, hpoint, hmark⟩ := ht c r hc
      rw [hmark]
      exact ⟨hdigit, hpoint, congrArg Except.ok hc.symm⟩
    | @mark c' sign ds hmark hsign hds =>
      obtain ⟨rfl, rfl⟩ : c' = c ∧ sign ++ ds ++ t = r := by simpa using hc
      rw [hmark]
      have hc : isDigit c' = false ∧ c' ≠ '.'.toUInt8 := by
        rcases (by simpa [isExponentMark] using hmark : c' = 'e'.toUInt8 ∨ c' = 'E'.toUInt8) with
          rfl | rfl <;> decide
      exact ⟨hc.1, hc.2, skipExponent_complete hsign hds ht.startsWithDigit⟩
  have hstart : startsWithDigit (e ++ t) = false := by
    cases hc : e ++ t with
    | nil => rfl
    | cons c r => exact (tail hc).1
  cases hf with
  | absent =>
    rw [List.nil_append]
    cases hc : e ++ t with
    | nil =>
      obtain ⟨-, rfl⟩ := List.append_eq_nil_iff.1 hc
      rfl
    | cons c r =>
      obtain ⟨-, hpoint, hrest⟩ := tail hc
      rw [skipFraction]
      simp only [hpoint, if_false]
      exact hrest
  | point hds =>
    rename_i ds
    have hpoint := startsWithDigit_append hds (e ++ t)
    rw [List.cons_append, skipFraction]
    simp only [if_true, hpoint, Bool.not_true, Bool.false_eq_true, if_false]
    rw [dropWhile_digits hds.2 hstart]
    cases hc : e ++ t with
    | nil =>
      obtain ⟨-, rfl⟩ := List.append_eq_nil_iff.1 hc
      rfl
    | cons c r => exact (tail hc).2.2

theorem skipNumber_sound {s rest : Bytes} (h : skipNumber s = .ok rest) :
    ∃ n, IsMagnitude n ∧ s = n ++ rest := by
  cases s with
  | nil => cases h
  | cons c r =>
    simp only [skipNumber] at h
    split at h
    · cases h
    · rename_i hdigit
      split at h
      · rename_i hzero
        subst hzero
        split at h
        · cases h
        · obtain ⟨f, e, hf, he, rfl⟩ := skipFraction_sound h
          exact ⟨_, .mk .zero hf he, by simp⟩
      · rename_i hnonzero
        obtain ⟨f, e, hf, he, heq⟩ := skipFraction_sound h
        have hothers : ∀ b ∈ r.takeWhile isDigit, isDigit b = true :=
          fun b hb => List.mem_takeWhile_imp hb
        refine ⟨_, .mk (.digits (by simpa using hdigit) hnonzero hothers) hf he, ?_⟩
        have hr := (List.takeWhile_append_dropWhile (p := isDigit) (l := r)).symm
        rw [heq] at hr
        simpa using hr

theorem skipNumber_complete {n t : Bytes} (hn : IsMagnitude n) (ht : EndsNumber t) :
    skipNumber (n ++ t) = .ok t := by
  obtain ⟨hw, hf, he⟩ := hn
  rename_i whole f e
  have hrest := skipFraction_complete hf he ht
  have hstart : startsWithDigit (f ++ (e ++ t)) = false := by
    cases hf with
    | point _ => rfl
    | absent =>
      cases he with
      | absent => exact ht.startsWithDigit
      | mark hmark _ _ =>
        rcases (by simpa [isExponentMark] using hmark : _ = 'e'.toUInt8 ∨ _ = 'E'.toUInt8) with
          rfl | rfl <;> rfl
  rw [List.append_assoc, List.append_assoc]
  cases hw with
  | zero =>
    rw [List.singleton_append, skipNumber, if_neg (by decide), if_pos rfl,
      if_neg (by simp [hstart])]
    exact hrest
  | digits hfirst hnonzero hothers =>
    rw [List.cons_append, skipNumber, if_neg (by simp [hfirst]), if_neg hnonzero,
      dropWhile_digits hothers hstart]
    exact hrest

/-! ### Words -/

theorem readWord_eq_ok_iff {w s rest : Bytes} : readWord w s = .ok rest ↔ s = w ++ rest := by
  fun_induction readWord w s <;> simp_all [eq_comm]

/-! ### Literals -/

/-- The bytes of a literal, without its quotes, in the form that is passed over. -/
inductive IsLoose : Bytes → Prop where
  | nil : IsLoose []
  | plain {b : UInt8} {s : Bytes} (literal : IsLiteral b) (rest : IsLoose s) : IsLoose (b :: s)
  | short {e : UInt8} {s : Bytes} (known : (shortByte? e).isSome) (rest : IsLoose s) :
      IsLoose (backslash :: e :: s)
  | code {a b c d : UInt8} {s : Bytes} (digits : (fourHex? a b c d).isSome) (rest : IsLoose s) :
      IsLoose (backslash :: 'u'.toUInt8 :: a :: b :: c :: d :: s)

/-- The bytes of a literal, without its quotes, and the bytes that they stand for. -/
inductive Spells : Bytes → Bytes → Prop where
  | nil : Spells [] []
  | plain {b : UInt8} {s t : Bytes} (literal : IsLiteral b) (rest : Spells s t) :
      Spells (b :: s) (b :: t)
  | short {e b : UInt8} {s t : Bytes} (known : shortByte? e = some b) (rest : Spells s t) :
      Spells (backslash :: e :: s) (b :: t)
  | code {a b c d : UInt8} {n : Nat} {s t : Bytes} (digits : fourHex? a b c d = some n)
      (leading : isLeading n = false) (trailing : isTrailing n = false) (rest : Spells s t) :
      Spells (backslash :: 'u'.toUInt8 :: a :: b :: c :: d :: s) (codePointBytes n ++ t)
  | pair {a b c d a' b' c' d' : UInt8} {n m : Nat} {s t : Bytes}
      (digits : fourHex? a b c d = some n) (leading : isLeading n = true)
      (digits' : fourHex? a' b' c' d' = some m) (trailing : isTrailing m = true)
      (rest : Spells s t) :
      Spells (backslash :: 'u'.toUInt8 :: a :: b :: c :: d ::
        backslash :: 'u'.toUInt8 :: a' :: b' :: c' :: d' :: s) (codePointBytes (pairValue n m) ++ t)

/-- A literal of the text. -/
def IsString (s : Bytes) (text : String) : Prop :=
  ∃ raw, s = quote :: (raw ++ [quote]) ∧ Spells raw (Utf8.encode text)

theorem shortByte?_u : shortByte? 'u'.toUInt8 = none := by decide

theorem skipLiteral_sound {s rest : Bytes} (h : skipLiteral s = .ok rest) :
    ∃ raw, IsLoose raw ∧ s = raw ++ quote :: rest := by
  fun_induction skipLiteral s
  all_goals try cases h
  case case2.refl => exact ⟨[], .nil, rfl⟩
  case case4 he _ ih =>
    obtain ⟨raw, hraw, rfl⟩ := ih h
    exact ⟨_, .short (Option.isSome_of_eq_some he) hraw, rfl⟩
  case case7 hu _ _ _ _ _ _ hn _ ih =>
    obtain rfl := not_not.1 hu
    obtain ⟨raw, hraw, rfl⟩ := ih h
    exact ⟨_, .code (Option.isSome_of_eq_some hn) hraw, rfl⟩
  case case10 hquote hbackslash hcontrol ih =>
    obtain ⟨raw, hraw, rfl⟩ := ih h
    exact ⟨_, .plain ⟨hquote, hbackslash, hcontrol⟩ hraw, rfl⟩

theorem skipLiteral_complete {raw : Bytes} (h : IsLoose raw) (t : Bytes) :
    skipLiteral (raw ++ quote :: t) = .ok t := by
  induction h with
  | nil => rw [List.nil_append, skipLiteral.eq_def]; simp
  | @plain b s hb _ ih =>
    rw [List.cons_append, skipLiteral.eq_def]
    simpa [hb.1, hb.2.1, hb.2.2] using ih
  | @short e s he _ ih =>
    obtain ⟨b, hb⟩ := Option.isSome_iff_exists.1 he
    rw [List.cons_append, List.cons_append, skipLiteral.eq_def]
    have hne : backslash ≠ quote := by decide
    simpa [hne, hb] using ih
  | @code a b c d s hn _ ih =>
    obtain ⟨n, hn⟩ := Option.isSome_iff_exists.1 hn
    have hne : backslash ≠ quote := by decide
    simp only [List.cons_append]
    rw [skipLiteral.eq_def]
    simpa [hne, shortByte?_u, hn] using ih

theorem scan_sound {s d rest : Bytes} (h : scan s = .ok (d, rest)) :
    ∃ raw, Spells raw d ∧ s = raw ++ quote :: rest := by
  fun_induction scan s generalizing d
  all_goals try cases h
  case case2.refl => exact ⟨[], .nil, rfl⟩
  case case4 he _ ih =>
    obtain ⟨t, ht, rfl⟩ := prepend_eq_ok_iff.1 h
    obtain ⟨raw, hraw, rfl⟩ := ih ht
    exact ⟨_, .short he hraw, rfl⟩
  case case12 hu _ _ _ _ _ hn _ hleading _ _ hescape _ _ _ _ _ _ hm htrailing _ ih =>
    obtain rfl := not_not.1 hu
    obtain ⟨hb, hu'⟩ := not_or.1 hescape
    obtain rfl := not_not.1 hb
    obtain rfl := not_not.1 hu'
    obtain ⟨t, ht, hd⟩ := prepend_eq_ok_iff.1 h
    obtain ⟨raw, hraw, rfl⟩ := ih ht
    rw [hd]
    exact ⟨_, .pair hn hleading hm htrailing hraw, rfl⟩
  case case15 hu _ _ _ _ _ _ hn htrailing hleading _ ih =>
    obtain rfl := not_not.1 hu
    obtain ⟨t, ht, rfl⟩ := prepend_eq_ok_iff.1 h
    obtain ⟨raw, hraw, rfl⟩ := ih ht
    exact ⟨_, .code hn (by simpa using hleading) (by simpa using htrailing) hraw, rfl⟩
  case case18 hquote hbackslash hcontrol ih =>
    obtain ⟨t, ht, rfl⟩ := prepend_eq_ok_iff.1 h
    obtain ⟨raw, hraw, rfl⟩ := ih ht
    exact ⟨_, .plain ⟨hquote, hbackslash, hcontrol⟩ hraw, rfl⟩

theorem scan_complete {raw d : Bytes} (h : Spells raw d) (t : Bytes) :
    scan (raw ++ quote :: t) = .ok (d, t) := by
  have hne : backslash ≠ quote := by decide
  induction h with
  | nil => rw [List.nil_append, scan.eq_def]; simp
  | plain hb _ ih => rw [List.cons_append, scan_cons hb, ih]; rfl
  | @short e b s t hb _ ih =>
    simp only [List.cons_append]
    rw [scan.eq_def]
    simp [hne, hb, ih, prepend]
  | code hn hleading htrailing _ ih =>
    simp only [List.cons_append]
    rw [scan_codePoint hn htrailing hleading, ih]
    rfl
  | @pair a b c d a' b' c' d' n m s t hn hleading hm htrailing _ ih =>
    have hn' : isTrailing n = false := by
      simp only [isLeading, isTrailing, Bool.and_eq_true, decide_eq_true_eq,
        Bool.and_eq_false_iff, decide_eq_false_iff_not] at hleading ⊢
      omega
    simp only [List.cons_append]
    rw [scan.eq_def]
    simp [hne, shortByte?_u, hn, hleading, hm, htrailing, hn', ih, prepend]

/-- A literal is read exactly when its bytes spell the encoding of a text. -/
theorem readLiteral_eq_ok_iff {s rest : Bytes} {text : String} :
    readLiteral s = .ok (text, rest) ↔
      ∃ raw, Spells raw (Utf8.encode text) ∧ s = raw ++ quote :: rest := by
  unfold readLiteral
  constructor
  · intro h
    split at h
    · cases h
    · rename_i bytes tail hs
      split at h
      · rename_i hd
        cases h
        obtain rfl := Utf8.decode?_eq_some_iff.1 hd
        exact scan_sound hs
      · cases h
  · rintro ⟨raw, hraw, rfl⟩
    simp [scan_complete hraw]

end ReplicationQueue.Json
