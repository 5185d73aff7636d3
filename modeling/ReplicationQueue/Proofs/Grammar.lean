import ReplicationQueue.Proofs.Lexeme

/-! The values that are passed over. `IsJson` is the grammar, with lists and objects as one form: a
bracket, its items with commas between them, and the bracket that closes it. Passing over a value
takes a value of the grammar off the text, and whatever the open brackets still ask for. -/

namespace ReplicationQueue.Json

/-- A value without parts. -/
inductive IsAtom : Bytes → Prop where
  | null : IsAtom ('n'.toUInt8 :: wordNull)
  | true : IsAtom ('t'.toUInt8 :: wordTrue)
  | false : IsAtom ('f'.toUInt8 :: wordFalse)
  | number {s : Bytes} (number : IsNumber s) : IsAtom s
  | string {raw : Bytes} (loose : IsLoose raw) : IsAtom (quote :: (raw ++ [quote]))

namespace Bracket

def opening : Bracket → UInt8
  | .list => '['.toUInt8
  | .object => '\x7b'.toUInt8

def closing : Bracket → UInt8
  | .list => ']'.toUInt8
  | .object => '\x7d'.toUInt8

end Bracket

def comma : UInt8 := ','.toUInt8
def colon : UInt8 := ':'.toUInt8

/-- An item is an element of a list or a member of an object, with the blanks around it. -/
inductive Phrase where
  | value
  | item (bracket : Bracket)
  | items (bracket : Bracket)

/-- The grammar of values. -/
inductive IsJson : Phrase → Bytes → Prop where
  | atom {s : Bytes} (atom : IsAtom s) : IsJson .value s
  | empty (k : Bracket) {a : Bytes} (blank : IsBlank a) :
      IsJson .value (k.opening :: (a ++ [k.closing]))
  | full (k : Bracket) {s : Bytes} (items : IsJson (.items k) s) :
      IsJson .value (k.opening :: (s ++ [k.closing]))
  | element {a v b : Bytes} (before : IsBlank a) (value : IsJson .value v) (after : IsBlank b) :
      IsJson (.item .list) (a ++ (v ++ b))
  | member {a key b e : Bytes} (before : IsBlank a) (loose : IsLoose key) (after : IsBlank b)
      (element : IsJson (.item .list) e) :
      IsJson (.item .object) (a ++ quote :: (key ++ quote :: (b ++ colon :: e)))
  | one {k : Bracket} {s : Bytes} (item : IsJson (.item k) s) : IsJson (.items k) s
  | more {k : Bracket} {s t : Bytes} (item : IsJson (.item k) s) (items : IsJson (.items k) t) :
      IsJson (.items k) (s ++ comma :: t)

/-- What the open brackets still ask for, innermost first, and what is left after it. -/
inductive Closes : List Bracket → Bytes → Bytes → Prop where
  | done (s : Bytes) : Closes [] s s
  | last {k : Bracket} {outer : List Bracket} {a t rest : Bytes} (blank : IsBlank a)
      (closes : Closes outer t rest) : Closes (k :: outer) (a ++ k.closing :: t) rest
  | more {k : Bracket} {outer : List Bracket} {a s t rest : Bytes} (blank : IsBlank a)
      (items : IsJson (.items k) s) (closes : Closes outer t rest) :
      Closes (k :: outer) (a ++ comma :: (s ++ k.closing :: t)) rest

/-- Passes over an item, and on until the bracket around it and all of `outer` are closed. -/
def skipItem : Bracket → List Bracket → Bytes → Except Fault Bytes
  | .list, outer, s => skipValue (.list :: outer) s
  | .object, outer, s => skipMember outer s

/-! ### The first byte of a value -/

section
variable {outer : List Bracket} {k : Bracket} {a s t v : Bytes} {c : UInt8}

/-- A blank cannot be a part of a number. -/
theorem endsNumber_blank (ha : IsBlank a) (ht : EndsNumber t) : EndsNumber (a ++ t) := by
  intro c r h
  cases a with
  | nil => exact ht c r h
  | cons b a =>
    cases h
    have hb : isSpace c = true := ha c (by simp)
    simp only [isSpace, Bool.or_eq_true, decide_eq_true_eq] at hb
    rcases hb with ((rfl | rfl) | rfl) | rfl <;> decide

theorem endsNumber_cons (h : isDigit c = false ∧ c ≠ '.'.toUInt8 ∧ isExponentMark c = false) :
    EndsNumber (c :: t) := by
  intro d r hd
  cases hd
  exact h

theorem endsNumber_comma : EndsNumber (comma :: t) :=
  endsNumber_cons (by decide)

theorem endsNumber_closing : EndsNumber (k.closing :: t) :=
  endsNumber_cons (by cases k <;> decide)

/-- The first byte of a value is no blank and no bracket that closes. -/
structure Begins (c : UInt8) : Prop where
  space : isSpace c = false
  closing : ∀ k : Bracket, c ≠ k.closing

theorem IsMagnitude.exists_digit (h : IsMagnitude s) :
    ∃ c r, s = c :: r ∧ isDigit c = true := by
  obtain ⟨hw, _, _⟩ := h
  cases hw with
  | zero => exact ⟨_, _, rfl, by decide⟩
  | digits hfirst _ _ => exact ⟨_, _, rfl, hfirst⟩

theorem Bracket.begins_opening (k : Bracket) : Begins k.opening :=
  ⟨by cases k <;> decide, by cases k <;> rintro (_ | _) <;> decide⟩

theorem Bracket.space_closing (k : Bracket) : isSpace k.closing = false := by
  cases k <;> decide

theorem isDigit_ne {d : UInt8} (hc : isDigit c = true) (hd : isDigit d = false) : c ≠ d := by
  rintro rfl
  rw [hc] at hd
  cases hd

theorem isSpace_of_isDigit (hc : isDigit c = true) : isSpace c = false := by
  by_contra h
  simp only [isSpace, Bool.or_eq_true, decide_eq_true_eq, Bool.not_eq_false] at h
  rcases h with ((rfl | rfl) | rfl) | rfl <;> exact absurd hc (by decide)

/-- An atom is known by its first byte. -/
theorem IsAtom.exists_first (h : IsAtom v) :
    ∃ c r, v = c :: r ∧ Begins c ∧ (∀ k : Bracket, c ≠ k.opening) ∧
      ∀ t, EndsNumber t → skipAtom c (r ++ t) = .ok t := by
  cases h with
  | null =>
    refine ⟨_, _, rfl, ⟨by decide, by rintro (_ | _) <;> decide⟩, by rintro (_ | _) <;> decide,
      fun t _ => ?_⟩
    rw [skipAtom, if_pos rfl, readWord_eq_ok_iff.2 rfl]
  | true =>
    refine ⟨_, _, rfl, ⟨by decide, by rintro (_ | _) <;> decide⟩, by rintro (_ | _) <;> decide,
      fun t _ => ?_⟩
    rw [skipAtom, if_neg (by decide), if_pos rfl, readWord_eq_ok_iff.2 rfl]
  | false =>
    refine ⟨_, _, rfl, ⟨by decide, by rintro (_ | _) <;> decide⟩, by rintro (_ | _) <;> decide,
      fun t _ => ?_⟩
    rw [skipAtom, if_neg (by decide), if_neg (by decide), if_pos rfl, readWord_eq_ok_iff.2 rfl]
  | number hn =>
    cases hn with
    | positive hn =>
      obtain ⟨c, r, rfl, hc⟩ := hn.exists_digit
      refine ⟨c, r, rfl, ⟨isSpace_of_isDigit hc, fun k => isDigit_ne hc (by cases k <;> decide)⟩,
        fun k => isDigit_ne hc (by cases k <;> decide), fun t ht => ?_⟩
      rw [skipAtom, if_neg (isDigit_ne hc (by decide)), if_neg (isDigit_ne hc (by decide)),
        if_neg (isDigit_ne hc (by decide)), if_neg (isDigit_ne hc (by decide)), if_pos hc]
      exact skipNumber_complete hn ht
    | negative hn =>
      refine ⟨_, _, rfl, ⟨by decide, by rintro (_ | _) <;> decide⟩, by rintro (_ | _) <;> decide,
        fun t ht => ?_⟩
      rw [skipAtom, if_neg (by decide), if_neg (by decide), if_neg (by decide), if_pos rfl]
      exact skipNumber_complete hn ht
  | @string raw hraw =>
    refine ⟨_, _, rfl, ⟨by decide, by rintro (_ | _) <;> decide⟩, by rintro (_ | _) <;> decide,
      fun t _ => ?_⟩
    have hskip := skipLiteral_complete hraw t
    rw [skipAtom, if_neg (by decide), if_neg (by decide), if_neg (by decide), if_neg (by decide),
      if_neg (by decide), if_pos rfl]
    simpa using hskip

theorem IsAtom.length_pos (h : IsAtom v) : 0 < v.length := by
  obtain ⟨c, r, rfl, -⟩ := h.exists_first
  simp

end

/-! ### What a reader takes -/

section
variable {outer : List Bracket} {k : Bracket} {s rest : Bytes}

theorem skipAtom_sound {c : UInt8} (h : skipAtom c s = .ok rest) :
    ∃ v, IsAtom v ∧ c :: s = v ++ rest := by
  unfold skipAtom at h
  split at h
  · rename_i hc
    rw [readWord_eq_ok_iff.1 h, hc]
    exact ⟨_, .null, rfl⟩
  split at h
  · rename_i hc
    rw [readWord_eq_ok_iff.1 h, hc]
    exact ⟨_, .true, rfl⟩
  split at h
  · rename_i hc
    rw [readWord_eq_ok_iff.1 h, hc]
    exact ⟨_, .false, rfl⟩
  split at h
  · rename_i hc
    obtain ⟨n, hn, rfl⟩ := skipNumber_sound h
    exact ⟨_, .number (.negative hn), by rw [hc]; rfl⟩
  split at h
  · obtain ⟨n, hn, heq⟩ := skipNumber_sound h
    exact ⟨_, .number (.positive hn), heq⟩
  split at h
  · rename_i hc
    obtain ⟨raw, hraw, rfl⟩ := skipLiteral_sound h
    exact ⟨_, .string hraw, by rw [hc]; simp⟩
  · cases h

/-- A value is an atom, or brackets around nothing or around items. -/
theorem skipValue_cases (h : skipValue outer s = .ok rest) :
    ∃ a, IsBlank a ∧
      ((∃ v t, IsAtom v ∧ s = a ++ (v ++ t) ∧ skipRest outer t = .ok rest) ∨
        (∃ k b t, IsBlank b ∧ s = a ++ k.opening :: (b ++ Bracket.closing k :: t) ∧
          skipRest outer t = .ok rest) ∨
        ∃ k r, s = a ++ k.opening :: r ∧ skipItem k outer r = .ok rest) := by
  rw [skipValue] at h
  split at h
  · cases h
  rename_i c r hs
  obtain ⟨a, ha, rfl⟩ := dropSpace_eq_cons hs
  refine ⟨a, ha, ?_⟩
  split at h
  · rename_i hc
    subst hc
    split at h
    · cases h
    rename_i d t hr
    split at h
    · rename_i hd
      subst hd
      obtain ⟨b, hb, rfl⟩ := dropSpace_eq_cons hr
      exact .inr (.inl ⟨.list, b, t, hb, rfl, h⟩)
    · exact .inr (.inr ⟨.list, r, rfl, h⟩)
  split at h
  · rename_i hc
    subst hc
    split at h
    · cases h
    rename_i d t hr
    split at h
    · rename_i hd
      subst hd
      obtain ⟨b, hb, rfl⟩ := dropSpace_eq_cons hr
      exact .inr (.inl ⟨.object, b, t, hb, rfl, h⟩)
    · exact .inr (.inr ⟨.object, r, rfl, h⟩)
  split at h
  · cases h
  · rename_i t ht
    obtain ⟨v, hv, heq⟩ := skipAtom_sound ht
    exact .inl ⟨v, t, hv, by rw [heq], h⟩

/-- After an item comes the closing bracket or a comma and the next item. -/
theorem skipRest_cases (h : skipRest (k :: outer) s = .ok rest) :
    ∃ a, IsBlank a ∧
      ((∃ t, s = a ++ k.closing :: t ∧ skipRest outer t = .ok rest) ∨
        ∃ t, s = a ++ comma :: t ∧ skipItem k outer t = .ok rest) := by
  cases k <;>
  · rw [skipRest] at h
    split at h
    · cases h
    rename_i c r hs
    obtain ⟨a, ha, rfl⟩ := dropSpace_eq_cons hs
    refine ⟨a, ha, ?_⟩
    split at h
    · rename_i hc
      exact .inr ⟨r, by rw [hc]; rfl, h⟩
    split at h
    · rename_i hc
      exact .inl ⟨r, by rw [hc]; rfl, h⟩
    · cases h

theorem skipMember_cases (h : skipMember outer s = .ok rest) :
    ∃ a key b t, IsBlank a ∧ IsLoose key ∧ IsBlank b ∧
      s = a ++ quote :: (key ++ quote :: (b ++ colon :: t)) ∧
      skipValue (.object :: outer) t = .ok rest := by
  rw [skipMember] at h
  split at h
  · cases h
  rename_i t hkey
  unfold skipKey at hkey
  split at hkey
  · cases hkey
  rename_i c r hs
  obtain ⟨a, ha, rfl⟩ := dropSpace_eq_cons hs
  split at hkey
  · cases hkey
  rename_i hc
  obtain rfl := not_not.1 hc
  split at hkey
  · cases hkey
  rename_i tail hliteral
  obtain ⟨key, hloose, rfl⟩ := skipLiteral_sound hliteral
  split at hkey
  · cases hkey
  rename_i d r' ht
  obtain ⟨b, hb, rfl⟩ := dropSpace_eq_cons ht
  split at hkey
  · rename_i hd
    cases hkey
    exact ⟨a, key, b, _, ha, hloose, hb, by rw [hd]; rfl, h⟩
  · cases hkey

/-- What the innermost bracket asks for ends the item before it and may hold more items. -/
theorem Closes.split {t : Bytes} (h : Closes (k :: outer) t rest) :
    ∃ b tail t', IsBlank b ∧ t = b ++ (tail ++ k.closing :: t') ∧ Closes outer t' rest ∧
      ∀ e, IsJson (.item k) (e ++ b) → IsJson (.items k) (e ++ (b ++ tail)) := by
  cases h with
  | last hb hclose => exact ⟨_, [], _, hb, rfl, hclose, fun e he => by simpa using .one he⟩
  | @more _ _ b s t' _ hb hitems hclose =>
    refine ⟨b, comma :: s, t', hb, rfl, hclose, fun e he => ?_⟩
    simpa using IsJson.more he hitems

/-- Passing over a value takes a value off the text and whatever the open brackets ask for. -/
def TakesValue (s : Bytes) : Prop :=
  ∀ outer rest, skipValue outer s = .ok rest →
    ∃ a v t, IsBlank a ∧ IsJson .value v ∧ s = a ++ (v ++ t) ∧ Closes outer t rest

theorem skipItem_sound (hvalue : ∀ s' : Bytes, s'.length ≤ s.length → TakesValue s')
    (h : skipItem k outer s = .ok rest) :
    ∃ es t, IsJson (.items k) es ∧ s = es ++ k.closing :: t ∧ Closes outer t rest := by
  cases k with
  | list =>
    obtain ⟨a, v, t, ha, hv, rfl, hclose⟩ := hvalue s le_rfl _ _ h
    obtain ⟨b, tail, t', hb, rfl, hclose, hitems⟩ := hclose.split
    refine ⟨_, t', hitems (a ++ v) ?_, by simp, hclose⟩
    simpa using IsJson.element ha hv hb
  | object =>
    obtain ⟨a, key, b, t, ha, hkey, hb, rfl, ht⟩ := skipMember_cases h
    obtain ⟨a', v, t, ha', hv, rfl, hclose⟩ := hvalue _ (by simp; omega) _ _ ht
    obtain ⟨b', tail, t', hb', rfl, hclose, hitems⟩ := hclose.split
    refine ⟨_, t', hitems (a ++ quote :: (key ++ quote :: (b ++ colon :: (a' ++ v)))) ?_,
      by simp, hclose⟩
    simpa using IsJson.member ha hkey hb (.element ha' hv hb')

/-- By induction on the length of the text, since an item may begin with a key. -/
theorem skip_sound (s : Bytes) :
    TakesValue s ∧ ∀ outer rest, skipRest outer s = .ok rest → Closes outer s rest := by
  induction hn : s.length using Nat.strongRecOn generalizing s with
  | ind n ih =>
    subst hn
    have item : ∀ {k outer r rest}, r.length < s.length → skipItem k outer r = .ok rest →
        ∃ es t, IsJson (.items k) es ∧ r = es ++ k.closing :: t ∧ Closes outer t rest :=
      fun hr h => skipItem_sound (fun s' hs' => (ih s'.length (by omega) s' rfl).1) h
    have closed : ∀ {outer t rest}, t.length < s.length → skipRest outer t = .ok rest →
        Closes outer t rest :=
      fun ht h => (ih _ ht _ rfl).2 _ _ h
    constructor
    · intro outer rest h
      obtain ⟨a, ha, ⟨v, t, hv, rfl, ht⟩ | ⟨k, b, t, hb, rfl, ht⟩ | ⟨k, r, rfl, hr⟩⟩ :=
        skipValue_cases h
      · have hpos := hv.length_pos
        exact ⟨a, v, t, ha, .atom hv, rfl, closed (by simp; omega) ht⟩
      · exact ⟨a, _, t, ha, .empty k hb, by simp, closed (by simp; omega) ht⟩
      · obtain ⟨es, t, hes, rfl, hclose⟩ := item (by simp; omega) hr
        exact ⟨a, _, t, ha, .full k hes, by simp, hclose⟩
    · intro outer rest h
      cases outer with
      | nil =>
        rw [skipRest] at h
        cases h
        exact .done s
      | cons k outer =>
        obtain ⟨a, ha, ⟨t, rfl, ht⟩ | ⟨t, rfl, ht⟩⟩ := skipRest_cases h
        · exact .last ha (closed (by simp; omega) ht)
        · obtain ⟨es, t', hes, rfl, hclose⟩ := item (by simp; omega) ht
          exact .more ha hes hclose

end

/-! ### What a reader accepts -/

section
variable {outer : List Bracket} {k : Bracket} {a s t : Bytes}

/-- Every phrase begins, after blanks, with a byte that is no closing bracket. -/
theorem IsJson.exists_first {p : Phrase} (h : IsJson p s) :
    ∃ a c r, IsBlank a ∧ s = a ++ c :: r ∧ Begins c := by
  induction h with
  | atom hatom =>
    obtain ⟨c, r, rfl, hc, -⟩ := hatom.exists_first
    exact ⟨[], c, r, isBlank_nil, rfl, hc⟩
  | empty k _ => exact ⟨[], _, _, isBlank_nil, rfl, k.begins_opening⟩
  | full k _ _ => exact ⟨[], _, _, isBlank_nil, rfl, k.begins_opening⟩
  | @element a v b ha _ _ ih =>
    obtain ⟨a', c, r, ha', rfl, hc⟩ := ih
    exact ⟨a ++ a', c, r ++ b, ha.append ha', by simp, hc⟩
  | member ha _ _ _ _ =>
    exact ⟨_, _, _, ha, rfl, by decide, by rintro (_ | _) <;> decide⟩
  | one _ ih => exact ih
  | @more k s t _ _ ih _ =>
    obtain ⟨a, c, r, ha, rfl, hc⟩ := ih
    exact ⟨a, c, r ++ comma :: t, ha, by simp, hc⟩

theorem skipRest_comma (ha : IsBlank a) :
    skipRest (k :: outer) (a ++ comma :: t) = skipItem k outer t := by
  have hs := dropSpace_append_cons ha (c := comma) (by decide) t
  cases k <;>
  · rw [skipRest]
    split <;> rename_i heq <;> rw [hs] at heq <;> cases heq
    exact if_pos rfl

theorem skipRest_closing (ha : IsBlank a) :
    skipRest (k :: outer) (a ++ k.closing :: t) = skipRest outer t := by
  have hs := dropSpace_append_cons ha (c := k.closing) k.space_closing t
  cases k <;>
  · rw [skipRest]
    split <;> rename_i heq <;> rw [hs] at heq <;> cases heq
    exact (if_neg (by decide)).trans (if_pos rfl)

theorem skipRest_blank (ha : IsBlank a) :
    skipRest (k :: outer) (a ++ t) = skipRest (k :: outer) t := by
  cases k <;> rw [skipRest, skipRest, dropSpace_append ha]

theorem skipValue_atom {v : Bytes} (ha : IsBlank a) (hv : IsAtom v) (ht : EndsNumber t) :
    skipValue outer (a ++ (v ++ t)) = skipRest outer t := by
  obtain ⟨c, r, rfl, hc, hopen, hskip⟩ := hv.exists_first
  have hs := dropSpace_append_cons ha hc.space (r ++ t)
  rw [skipValue]
  split <;> rename_i heq <;> rw [List.cons_append, hs] at heq <;> cases heq
  have hlist : c ≠ '['.toUInt8 := hopen .list
  have hobject : c ≠ '\x7b'.toUInt8 := hopen .object
  rw [if_neg hlist, if_neg hobject]
  split <;> rename_i heq <;> rw [hskip t ht] at heq <;> cases heq
  rfl

/-- Behind an opening bracket is the closing one, or there are items. -/
theorem skipValue_opening (outer : List Bracket) {s : Bytes} {c : UInt8} {r : Bytes}
    (ha : IsBlank a) (hs : dropSpace s = c :: r) :
    skipValue outer (a ++ k.opening :: s) =
      if c = k.closing then skipRest outer r else skipItem k outer s := by
  have hopen := dropSpace_append_cons ha k.begins_opening.space s
  cases k <;>
  · rw [skipValue]
    split <;> rename_i heq <;> rw [hopen] at heq <;> cases heq
    first
      | rw [if_pos (by rfl)]
      | rw [if_neg (by decide), if_pos (by rfl)]
    split <;> rename_i heq <;> rw [hs] at heq <;> cases heq
    rfl

theorem skipMember_key (outer : List Bracket) {key b : Bytes} (ha : IsBlank a)
    (hkey : IsLoose key) (hb : IsBlank b) :
    skipMember outer (a ++ quote :: (key ++ quote :: (b ++ colon :: t))) =
      skipValue (.object :: outer) t := by
  have hread : skipKey (a ++ quote :: (key ++ quote :: (b ++ colon :: t))) = .ok t := by
    rw [skipKey, dropSpace_append_cons ha (by decide)]
    simp only [ne_eq, not_true_eq_false, if_false, skipLiteral_complete hkey]
    rw [dropSpace_append_cons hb (by decide)]
    exact if_pos rfl
  rw [skipMember]
  split <;> rename_i heq <;> rw [hread] at heq <;> cases heq
  rfl

end

/-- How a phrase in front of a text is passed over. -/
def Phrase.IsSkipped : Phrase → Bytes → Prop
  | .value, v => ∀ outer a t, IsBlank a → EndsNumber t →
      skipValue outer (a ++ (v ++ t)) = skipRest outer t
  | .item .list, e => ∀ k outer t, EndsNumber t →
      skipValue (k :: outer) (e ++ t) = skipRest (k :: outer) t
  | .item .object, e => ∀ outer t, EndsNumber t →
      skipMember outer (e ++ t) = skipRest (.object :: outer) t
  | .items k, s => ∀ outer t, skipItem k outer (s ++ k.closing :: t) = skipRest outer t

theorem Phrase.IsSkipped.skipItem {k : Bracket} {s : Bytes} (h : (Phrase.item k).IsSkipped s)
    (outer : List Bracket) {t : Bytes} (ht : EndsNumber t) :
    skipItem k outer (s ++ t) = skipRest (k :: outer) t := by
  cases k with
  | list => exact h .list outer t ht
  | object => exact h outer t ht

theorem IsJson.isSkipped {p : Phrase} {s : Bytes} (h : IsJson p s) : p.IsSkipped s := by
  induction h with
  | atom hatom => exact fun outer a t ha ht => skipValue_atom ha hatom ht
  | empty k hb =>
    intro outer a t ha _
    have hempty := skipValue_opening outer (k := k) ha
      (dropSpace_append_cons hb k.space_closing t)
    rw [if_pos rfl] at hempty
    simpa using hempty
  | @full k s hs ih =>
    intro outer a t ha _
    obtain ⟨b, c, r, hb, hfirst, hc⟩ := hs.exists_first
    have hdrop : dropSpace (s ++ k.closing :: t) = c :: (r ++ k.closing :: t) := by
      rw [hfirst, List.append_assoc]
      exact dropSpace_append_cons hb hc.space _
    have hfull := skipValue_opening outer (k := k) ha hdrop
    rw [if_neg (hc.closing k), ih outer t] at hfull
    simpa using hfull
  | @element a v b ha _ hb ih =>
    intro k outer t ht
    have hvalue := ih (k :: outer) a (b ++ t) ha (endsNumber_blank hb ht)
    rw [skipRest_blank hb] at hvalue
    simpa using hvalue
  | @member a key b e ha hkey hb _ ih =>
    intro outer t ht
    have hmember := skipMember_key outer (t := e ++ t) ha hkey hb
    rw [ih .object outer t ht] at hmember
    simpa using hmember
  | one _ ih =>
    intro outer t
    rw [ih.skipItem outer endsNumber_closing]
    exact skipRest_closing isBlank_nil
  | more _ _ ih ihs =>
    intro outer t
    rw [List.append_assoc, List.cons_append, ih.skipItem outer endsNumber_comma]
    exact (skipRest_comma isBlank_nil).trans (ihs outer t)

/-- Passing over a value takes exactly a value of the grammar. -/
theorem skipValue_sound {s rest : Bytes} (h : skipValue [] s = .ok rest) :
    ∃ a v, IsBlank a ∧ IsJson .value v ∧ s = a ++ (v ++ rest) := by
  obtain ⟨a, v, t, ha, hv, rfl, hclose⟩ := (skip_sound s).1 [] rest h
  cases hclose
  exact ⟨a, v, ha, hv, rfl⟩

theorem skipValue_complete {a v t : Bytes} (ha : IsBlank a) (hv : IsJson .value v)
    (ht : EndsNumber t) : skipValue [] (a ++ (v ++ t)) = .ok t := by
  rw [hv.isSkipped [] a t ha ht, skipRest]

end ReplicationQueue.Json
