import Mathlib.Data.List.Nodup
import ReplicationQueue.Proofs.Grammar

/-! The texts that are read as an update: a list of its four strings, or an object that has each of
its fields once and any other members besides. The reader accepts these and nothing else. -/

namespace ReplicationQueue

open Json

namespace Json

variable {s rest : Bytes} {text : String}

theorem readLiteral_iff_isString :
    readLiteral s = .ok (text, rest) ↔ ∃ l, IsString l text ∧ quote :: s = l ++ rest := by
  rw [readLiteral_eq_ok_iff]
  constructor
  · rintro ⟨raw, hraw, rfl⟩
    exact ⟨_, ⟨raw, rfl, hraw⟩, by simp⟩
  · rintro ⟨_, ⟨raw, rfl, hraw⟩, heq⟩
    exact ⟨raw, hraw, by simpa using heq⟩

theorem readString_eq_ok_iff {wanted : String} :
    readString wanted s = .ok (text, rest) ↔
      ∃ a l, IsBlank a ∧ IsString l text ∧ s = a ++ (l ++ rest) := by
  unfold readString
  constructor
  · intro h
    split at h
    · cases h
    rename_i c r hs
    obtain ⟨a, ha, rfl⟩ := dropSpace_eq_cons hs
    split at h
    · rename_i hc
      subst hc
      obtain ⟨l, hl, heq⟩ := readLiteral_iff_isString.1 h
      exact ⟨a, l, ha, hl, by rw [heq]⟩
    · cases h
  · rintro ⟨a, l, ha, hl, rfl⟩
    obtain ⟨raw, rfl, -⟩ := id hl
    rw [List.cons_append, dropSpace_append_cons ha (by decide)]
    exact (if_pos rfl).trans (readLiteral_iff_isString.2 ⟨_, hl, rfl⟩)

theorem readString_literal (wanted : String) {l : Bytes} (hl : IsString l text) (rest : Bytes) :
    readString wanted (l ++ rest) = .ok (text, rest) :=
  readString_eq_ok_iff.2 ⟨[], l, isBlank_nil, hl, rfl⟩

theorem readColon_eq_ok_iff :
    readColon s = .ok rest ↔ ∃ a, IsBlank a ∧ s = a ++ colon :: rest := by
  unfold readColon
  constructor
  · intro h
    split at h
    · cases h
    rename_i c r hs
    obtain ⟨a, ha, rfl⟩ := dropSpace_eq_cons hs
    split at h
    · rename_i hc
      cases h
      exact ⟨a, ha, by rw [hc]; rfl⟩
    · cases h
  · rintro ⟨a, ha, rfl⟩
    rw [dropSpace_append_cons ha (by decide)]
    exact if_pos rfl

theorem bind_eq_ok_iff {α β : Type} {x : Except Fault α} {f : α → Except Fault β} {y : β} :
    x >>= f = .ok y ↔ ∃ a, x = .ok a ∧ f a = .ok y := by
  cases x <;> simp [bind, Except.bind]

theorem finish_eq_ok_iff {α : Type} {found : α × Bytes} {x : α} :
    finish found = .ok x ↔ found.1 = x ∧ IsBlank found.2 := by
  have hblank : (dropSpace found.2).isEmpty ↔ IsBlank found.2 := by
    rw [List.isEmpty_iff]
    exact ⟨dropSpace_eq_nil, dropSpace_blank⟩
  unfold finish
  split
  · rename_i h
    simp [hblank.1 h]
  · rename_i h
    simp [mt hblank.2 h]

end Json

namespace Update

/-- A string of the text, with the blanks around it. -/
inductive IsPadded (text : String) : Bytes → Prop where
  | mk {a l b : Bytes} (before : IsBlank a) (literal : IsString l text) (after : IsBlank b) :
      IsPadded text (a ++ (l ++ b))

/-- A member, with the blanks around it, and the field that it gives when it gives one. -/
inductive IsMember (u : Update) : Bytes → List Field → Prop where
  | own (field : Field) {a key b v : Bytes} (before : IsBlank a) (name : IsString key field.name)
      (after : IsBlank b) (value : IsPadded (u.get field) v) :
      IsMember u (a ++ (key ++ (b ++ colon :: v))) [field]
  | foreign {name : String} {a key b v : Bytes} (before : IsBlank a) (key_eq : IsString key name)
      (unknown : ∀ field : Field, name ≠ field.name) (after : IsBlank b)
      (value : IsJson (.item .list) v) : IsMember u (a ++ (key ++ (b ++ colon :: v))) []

/-- Members with commas between them, and the fields that they give, in order. -/
inductive IsMembers (u : Update) : Bytes → List Field → Prop where
  | one {m : Bytes} {fields : List Field} (member : IsMember u m fields) : IsMembers u m fields
  | more {m s : Bytes} {fields others : List Field} (member : IsMember u m fields)
      (members : IsMembers u s others) : IsMembers u (m ++ comma :: s) (fields ++ others)

/-- A text that stands for the update. -/
inductive IsText (u : Update) : Bytes → Prop where
  | list {a project ref uri remote b : Bytes} (before : IsBlank a)
      (project_eq : IsPadded u.project project) (ref_eq : IsPadded u.ref ref)
      (uri_eq : IsPadded u.uri uri) (remote_eq : IsPadded u.remote remote) (after : IsBlank b) :
      IsText u (a ++ Bracket.list.opening :: (project ++ comma :: (ref ++ comma ::
        (uri ++ comma :: (remote ++ Bracket.list.closing :: b)))))
  | object {a s b : Bytes} {fields : List Field} (before : IsBlank a)
      (members : IsMembers u s fields) (each : fields.Perm Field.all) (after : IsBlank b) :
      IsText u (a ++ Bracket.object.opening :: (s ++ Bracket.object.closing :: b))

/-! ### The fields that were seen -/

/-- `fields` have come to what was seen, each for the first time. -/
structure Tells (u : Update) (seen seen' : Seen) (fields : List Field) : Prop where
  told : ∀ field ∈ fields, seen' field = some (u.get field)
  kept : ∀ field, field ∉ fields → seen' field = seen field
  fresh : ∀ field ∈ fields, seen field = none
  nodup : fields.Nodup

/-- What was seen is what the update has. -/
def Agrees (u : Update) (seen : Seen) : Prop :=
  ∀ field text, seen field = some text → text = u.get field

section
variable {u : Update} {seen mid seen' : Seen} {fields others : List Field}

theorem Tells.nil (u : Update) (seen : Seen) : Tells u seen seen [] :=
  ⟨by simp, fun _ _ => rfl, by simp, List.nodup_nil⟩

theorem Tells.insert {field : Field} (h : seen field = none) :
    Tells u seen (seen.insert field (u.get field)) [field] := by
  refine ⟨?_, ?_, ?_, List.nodup_singleton field⟩ <;> intro other hother
  · simp only [List.mem_singleton] at hother
    simp [Seen.insert, hother]
  · simp only [List.mem_singleton] at hother
    simp [Seen.insert, hother]
  · rw [List.mem_singleton.1 hother, h]

theorem Tells.agrees (h : Tells u seen seen' fields) (ha : Agrees u seen') : Agrees u seen := by
  intro field text hs
  by_cases hf : field ∈ fields
  · rw [h.fresh field hf] at hs
    cases hs
  · exact ha field text ((h.kept field hf).trans hs)

theorem Tells.append (h : Tells u seen mid fields) (h' : Tells u mid seen' others) :
    Tells u seen seen' (fields ++ others) := by
  have apart : ∀ field ∈ fields, field ∉ others := by
    intro field hf ho
    have := h.told field hf
    rw [h'.fresh field ho] at this
    cases this
  refine ⟨fun field hf => ?_, fun field hf => ?_, fun field hf => ?_, ?_⟩
  · rcases List.mem_append.1 hf with hf | hf
    · rw [h'.kept field (apart field hf), h.told field hf]
    · exact h'.told field hf
  · rw [List.mem_append, not_or] at hf
    rw [h'.kept field hf.2, h.kept field hf.1]
  · by_cases hfields : field ∈ fields
    · exact h.fresh field hfields
    · rw [← h.kept field hfields, h'.fresh field ((List.mem_append.1 hf).resolve_left hfields)]
  · exact h.nodup.append h'.nodup fun field hf => apart field hf

/-- What comes to be seen in one reading comes in its two parts, one after the other. -/
theorem Tells.split (h : Tells u seen seen' (fields ++ others)) :
    ∃ mid, Tells u seen mid fields ∧ Tells u mid seen' others := by
  have hnodup := List.nodup_append.1 h.nodup
  have apart : ∀ field ∈ fields, field ∉ others := fun field hf ho =>
    hnodup.2.2 field hf field ho rfl
  refine ⟨fun field => if field ∈ fields then some (u.get field) else seen field,
    ⟨fun field hf => if_pos hf, fun field hf => if_neg hf,
      fun field hf => h.fresh field (by simp [hf]), hnodup.1⟩,
    ⟨fun field hf => h.told field (by simp [hf]), fun field hf => ?_, fun field hf => ?_,
      hnodup.2.1⟩⟩
  · by_cases hfields : field ∈ fields
    · rw [if_pos hfields, h.told field (by simp [hfields])]
    · rw [if_neg hfields, h.kept field (by simp [hf, hfields])]
  · have hfields : field ∉ fields := fun hfields => apart field hfields hf
    exact (if_neg hfields).trans (h.fresh field (by simp [hf]))

/-- What is seen after a reading is known from what was seen before it. -/
theorem Tells.unique {seen'' : Seen} (h : Tells u seen seen' fields)
    (h' : Tells u seen seen'' fields) : seen' = seen'' := by
  funext field
  by_cases hf : field ∈ fields
  · rw [h.told field hf, h'.told field hf]
  · rw [h.kept field hf, h'.kept field hf]

end

theorem ofName?_eq_some {name : String} {field : Field} (h : Field.ofName? name = some field) :
    name = field.name := by
  unfold Field.ofName? at h
  have hname := List.find?_some h
  exact (beq_iff_eq.1 hname).symm

theorem ofName?_eq_none_iff {name : String} :
    Field.ofName? name = none ↔ ∀ field : Field, name ≠ field.name := by
  constructor
  · intro h field hname
    rw [hname, ofName?_name] at h
    cases h
  · intro h
    cases hf : Field.ofName? name with
    | none => rfl
    | some field => exact absurd (ofName?_eq_some hf) (h field)

/-! ### Members -/

section
variable {u : Update} {seen seen' : Seen} {fields : List Field} {s rest : Bytes}

theorem readMember_sound (h : readMember seen s = .ok (seen', rest)) (hu : Agrees u seen') :
    ∃ m fields, quote :: s = m ++ rest ∧ Tells u seen seen' fields ∧
      ∀ a b, IsBlank a → IsBlank b → IsMember u (a ++ (m ++ b)) fields := by
  unfold readMember at h
  split at h
  · cases h
  rename_i name tail hname
  obtain ⟨key, hkey, heq⟩ := readLiteral_iff_isString.1 hname
  split at h
  · rename_i field hfield
    obtain rfl := ofName?_eq_some hfield
    split at h
    · cases h
    rename_i hnone
    split at h
    · cases h
    rename_i tail' hcolon
    obtain ⟨b, hb, rfl⟩ := readColon_eq_ok_iff.1 hcolon
    split at h
    · cases h
    rename_i text tail hstring
    obtain ⟨a', l, ha', hl, rfl⟩ := readString_eq_ok_iff.1 hstring
    cases h
    have htext : text = u.get field := hu field text (by simp [Seen.insert])
    subst htext
    refine ⟨key ++ (b ++ colon :: (a' ++ l)), [field], by simp [heq],
      .insert (by simpa using hnone), fun a c ha hc => ?_⟩
    simpa using IsMember.own field ha hkey hb (.mk ha' hl hc)
  · rename_i hunknown
    split at h
    · cases h
    rename_i tail' hcolon
    obtain ⟨b, hb, rfl⟩ := readColon_eq_ok_iff.1 hcolon
    split at h
    · cases h
    rename_i tail hvalue
    obtain ⟨a', v, ha', hv, rfl⟩ := skipValue_sound hvalue
    cases h
    refine ⟨key ++ (b ++ colon :: (a' ++ v)), [], by simp [heq], .nil u seen,
      fun a c ha hc => ?_⟩
    simpa using IsMember.foreign ha hkey (ofName?_eq_none_iff.1 hunknown) hb (.element ha' hv hc)

theorem readMember_complete {m : Bytes} (h : IsMember u m fields) :
    ∃ a s, IsBlank a ∧ m = a ++ quote :: s ∧
      ∀ seen seen' t, Tells u seen seen' fields → EndsNumber t →
        ∃ b, IsBlank b ∧ readMember seen (s ++ t) = .ok (seen', b ++ t) := by
  cases h with
  | @own field a key b v ha hkey hb hv =>
    obtain ⟨raw, rfl, -⟩ := id hkey
    obtain ⟨ha', hl, hc⟩ := hv
    rename_i a' l c
    refine ⟨a, raw ++ quote :: (b ++ colon :: (a' ++ (l ++ c))), ha, by simp,
      fun seen seen' t htells _ => ⟨c, hc, ?_⟩⟩
    have hname : readLiteral (raw ++ quote :: (b ++ colon :: (a' ++ (l ++ c))) ++ t) =
        .ok (field.name, b ++ colon :: (a' ++ (l ++ (c ++ t)))) :=
      readLiteral_iff_isString.2 ⟨_, hkey, by simp⟩
    have hnone : seen field = none := htells.fresh field (by simp)
    have hcolon : readColon (b ++ colon :: (a' ++ (l ++ (c ++ t)))) =
        .ok (a' ++ (l ++ (c ++ t))) :=
      readColon_eq_ok_iff.2 ⟨b, hb, rfl⟩
    have hstring : readString "a string" (a' ++ (l ++ (c ++ t))) = .ok (u.get field, c ++ t) :=
      readString_eq_ok_iff.2 ⟨a', l, ha', hl, rfl⟩
    rw [htells.unique (.insert hnone), readMember, hname]
    simp [ofName?_name, hnone, hcolon, hstring]
  | @foreign name a key b v ha hkey hunknown hb hv =>
    obtain ⟨raw, rfl, -⟩ := id hkey
    cases hv
    rename_i a' v c ha' hv hc
    refine ⟨a, raw ++ quote :: (b ++ colon :: (a' ++ (v ++ c))), ha, by simp,
      fun seen seen' t htells ht => ⟨c, hc, ?_⟩⟩
    have hname : readLiteral (raw ++ quote :: (b ++ colon :: (a' ++ (v ++ c))) ++ t) =
        .ok (name, b ++ colon :: (a' ++ (v ++ (c ++ t)))) :=
      readLiteral_iff_isString.2 ⟨_, hkey, by simp⟩
    have hcolon : readColon (b ++ colon :: (a' ++ (v ++ (c ++ t)))) =
        .ok (a' ++ (v ++ (c ++ t))) :=
      readColon_eq_ok_iff.2 ⟨b, hb, rfl⟩
    have hvalue := skipValue_complete ha' hv (endsNumber_blank hc ht)
    rw [htells.unique (.nil u seen), readMember, hname]
    simp [ofName?_eq_none_iff.2 hunknown, hcolon, hvalue]

theorem readMembers_sound (h : readMembers seen s = .ok (seen', rest)) (hu : Agrees u seen') :
    ∃ ms fields, quote :: s = ms ++ Bracket.object.closing :: rest ∧ Tells u seen seen' fields ∧
      ∀ a, IsBlank a → IsMembers u (a ++ ms) fields := by
  fun_induction readMembers seen s
  all_goals try cases h
  case case3.refl hmember hclose =>
    obtain ⟨b, hb, rfl⟩ := dropSpace_eq_cons hclose
    obtain ⟨m, fields, heq, htells, hm⟩ := readMember_sound hmember hu
    exact ⟨m ++ b, fields, by rw [heq]; simp [Bracket.closing], htells,
      fun a ha => .one (hm a b ha hb)⟩
  case case5 hmember _ _ hcomma _ hquote ih =>
    obtain ⟨b, hb, rfl⟩ := dropSpace_eq_cons hcomma
    obtain ⟨a', ha', rfl⟩ := dropSpace_eq_cons hquote
    obtain ⟨ms, others, hnext, hothers, hms⟩ := ih h
    obtain ⟨m, fields, heq, htells, hm⟩ := readMember_sound hmember (hothers.agrees hu)
    refine ⟨m ++ b ++ comma :: (a' ++ ms), fields ++ others, ?_, htells.append hothers,
      fun a ha => ?_⟩
    · rw [heq, hnext]
      simp [comma]
    · simpa using IsMembers.more (hm a b ha hb) (hms a' ha')

theorem readMembers_complete {ms : Bytes} (h : IsMembers u ms fields) :
    ∃ a s, IsBlank a ∧ ms = a ++ quote :: s ∧
      ∀ seen seen' t, Tells u seen seen' fields →
        readMembers seen (s ++ Bracket.object.closing :: t) = .ok (seen', t) := by
  induction h with
  | one hm =>
    obtain ⟨a, s, ha, rfl, hread⟩ := readMember_complete hm
    refine ⟨a, s, ha, rfl, fun seen seen' t htells => ?_⟩
    obtain ⟨b, hb, hmember⟩ :=
      hread seen seen' (Bracket.object.closing :: t) htells endsNumber_closing
    have hclose := dropSpace_append_cons hb Bracket.object.space_closing t
    rw [readMembers]
    split <;> rename_i heq <;> rw [hmember] at heq <;> cases heq
    split <;> rename_i heq <;> rw [hclose] at heq <;> cases heq
    exact if_pos rfl
  | more hm _ ih =>
    obtain ⟨a, s, ha, rfl, hread⟩ := readMember_complete hm
    obtain ⟨a', s', ha', rfl, hreads⟩ := ih
    refine ⟨a, s ++ comma :: (a' ++ quote :: s'), ha, by simp, fun seen seen' t htells => ?_⟩
    obtain ⟨mid, htells, hothers⟩ := htells.split
    have hnext := hreads mid seen' t hothers
    obtain ⟨b, hb, hmember⟩ := hread seen mid
      (comma :: (a' ++ quote :: (s' ++ Bracket.object.closing :: t))) htells endsNumber_comma
    have hcomma := dropSpace_append_cons hb (c := comma) (by decide)
      (a' ++ quote :: (s' ++ Bracket.object.closing :: t))
    have hquote := dropSpace_append_cons ha' (c := quote) (by decide)
      (s' ++ Bracket.object.closing :: t)
    rw [List.append_assoc, List.cons_append, List.append_assoc, List.cons_append, readMembers]
    split <;> rename_i heq <;> rw [hmember] at heq <;> cases heq
    split <;> rename_i heq <;> rw [hcomma] at heq <;> cases heq
    rw [if_neg (by decide), if_pos (by rfl)]
    split <;> rename_i heq <;> rw [hquote] at heq <;> cases heq
    exact (if_pos rfl).trans hnext

/-- An update is complete when each of its fields was seen. -/
theorem seen_update_eq_ok_iff : seen.update = .ok u ↔ ∀ field, seen field = some (u.get field) := by
  constructor
  · intro h
    have found : ∀ field, ∃ text, seen field = some text := by
      intro field
      cases hfield : seen field with
      | some text => exact ⟨text, rfl⟩
      | none => cases field <;> simp [Seen.update, bind_eq_ok_iff, hfield] at h
    obtain ⟨project, hproject⟩ := found .project
    obtain ⟨ref, href⟩ := found .ref
    obtain ⟨uri, huri⟩ := found .uri
    obtain ⟨remote, hremote⟩ := found .remote
    simp only [Seen.update, hproject, href, huri, hremote] at h
    cases h
    rintro (_ | _ | _ | _)
    · exact hproject
    · exact href
    · exact huri
    · exact hremote
  · intro h
    simp only [Seen.update, h]
    rfl

theorem mem_all (field : Field) : field ∈ Field.all := by
  cases field <;> decide

theorem readObject_eq_ok_iff :
    readObject s = .ok (u, rest) ↔
      ∃ ms fields, IsMembers u ms fields ∧ fields.Perm Field.all ∧
        s = ms ++ Bracket.object.closing :: rest := by
  constructor
  · intro h
    unfold readObject at h
    split at h
    · cases h
    rename_i c r hs
    obtain ⟨a, ha, rfl⟩ := dropSpace_eq_cons hs
    split at h
    · obtain ⟨_, hnone, -⟩ := bind_eq_ok_iff.1 h
      have := seen_update_eq_ok_iff.1 hnone .project
      cases this
    split at h
    · rename_i hquote
      subst hquote
      obtain ⟨⟨seen, tail⟩, hmembers, h⟩ := bind_eq_ok_iff.1 h
      obtain ⟨_, hupdate, h⟩ := bind_eq_ok_iff.1 h
      cases h
      have hseen := seen_update_eq_ok_iff.1 hupdate
      have hu : Agrees u seen := by
        intro field text htext
        rw [hseen field] at htext
        cases htext
        rfl
      obtain ⟨ms, fields, heq, htells, hms⟩ := readMembers_sound hmembers hu
      refine ⟨a ++ ms, fields, hms a ha, ?_, by rw [heq]; simp⟩
      refine (List.perm_ext_iff_of_nodup htells.nodup (by decide)).2 fun field => ?_
      refine ⟨fun _ => mem_all field, fun _ => ?_⟩
      by_contra hfield
      have := (htells.kept field hfield).symm.trans (hseen field)
      cases this
    · cases h
  · rintro ⟨ms, fields, hms, hperm, rfl⟩
    obtain ⟨a, s, ha, rfl, hread⟩ := readMembers_complete hms
    have htells : Tells u Seen.none (fun field => some (u.get field)) fields :=
      ⟨fun _ _ => rfl, fun field hf => absurd (hperm.mem_iff.2 (mem_all field)) hf,
        fun _ _ => rfl, hperm.nodup_iff.2 (by decide)⟩
    have hupdate : Seen.update (fun field => some (u.get field)) = .ok u :=
      seen_update_eq_ok_iff.2 fun _ => rfl
    unfold readObject
    rw [List.append_assoc, List.cons_append, dropSpace_append_cons ha (by decide)]
    simp only
    rw [if_neg (by decide), if_pos trivial, hread _ _ rest htells]
    exact bind_eq_ok_iff.2 ⟨_, rfl, bind_eq_ok_iff.2 ⟨u, hupdate, rfl⟩⟩

end

/-! ### The list form -/

section
variable {u : Update} {text : String} {s rest : Bytes}

theorem readElement_zero_iff :
    readElement 0 s = .ok (text, rest) ↔
      ∃ a l, IsBlank a ∧ IsString l text ∧ s = a ++ (l ++ rest) := by
  constructor
  · intro h
    unfold readElement at h
    split at h
    · cases h
    rename_i c r hs
    obtain ⟨a, ha, rfl⟩ := dropSpace_eq_cons hs
    split at h
    · cases h
    rw [if_pos rfl] at h
    obtain ⟨a', l, ha', hl, heq⟩ := readString_eq_ok_iff.1 h
    exact ⟨a ++ a', l, ha.append ha', hl, by rw [heq]; simp⟩
  · rintro ⟨a, l, ha, hl, rfl⟩
    have hread := readString_literal "a string" hl rest
    obtain ⟨raw, rfl, -⟩ := hl
    unfold readElement
    rw [List.cons_append, dropSpace_append_cons ha (by decide)]
    simp only
    rw [if_neg (by decide), if_pos trivial]
    exact hread

theorem readElement_succ_iff {n : Nat} :
    readElement (n + 1) s = .ok (text, rest) ↔
      ∃ b a l, IsBlank b ∧ IsBlank a ∧ IsString l text ∧ s = b ++ comma :: (a ++ (l ++ rest)) := by
  constructor
  · intro h
    unfold readElement at h
    split at h
    · cases h
    rename_i c r hs
    obtain ⟨b, hb, rfl⟩ := dropSpace_eq_cons hs
    split at h
    · cases h
    rw [if_neg (by omega)] at h
    split at h
    · rename_i hc
      subst hc
      split at h
      · cases h
      rename_i d r' hr
      obtain ⟨a, ha, rfl⟩ := dropSpace_eq_cons hr
      split at h
      · cases h
      obtain ⟨a', l, ha', hl, heq⟩ := readString_eq_ok_iff.1 h
      exact ⟨b, a ++ a', l, hb, ha.append ha', hl, by rw [heq]; simp [comma]⟩
    · cases h
  · rintro ⟨b, a, l, hb, ha, hl, rfl⟩
    have hread := readString_literal "a string" hl rest
    obtain ⟨raw, rfl, -⟩ := hl
    unfold readElement
    rw [dropSpace_append_cons hb (by decide)]
    simp only
    rw [if_neg (by decide), if_neg (by omega), if_pos (by rfl), List.cons_append,
      dropSpace_append_cons ha (by decide)]
    simp only
    rw [if_neg (by decide)]
    exact hread

theorem readListEnd_eq_ok_iff :
    readListEnd s = .ok rest ↔ ∃ a, IsBlank a ∧ s = a ++ Bracket.list.closing :: rest := by
  constructor
  · intro h
    unfold readListEnd at h
    split at h
    · cases h
    rename_i c r hs
    obtain ⟨a, ha, rfl⟩ := dropSpace_eq_cons hs
    split at h
    · rename_i hc
      cases h
      exact ⟨a, ha, by rw [hc]; rfl⟩
    split at h
    · split at h <;> cases h
    · cases h
  · rintro ⟨a, ha, rfl⟩
    unfold readListEnd
    rw [dropSpace_append_cons ha Bracket.list.space_closing]
    exact if_pos rfl

theorem readList_eq_ok_iff :
    readList s = .ok (u, rest) ↔
      ∃ project ref uri remote, IsPadded u.project project ∧ IsPadded u.ref ref ∧
        IsPadded u.uri uri ∧ IsPadded u.remote remote ∧
        s = project ++ comma :: (ref ++ comma :: (uri ++ comma :: (remote ++
          Bracket.list.closing :: rest))) := by
  simp only [readList, bind_eq_ok_iff, Prod.exists]
  constructor
  · rintro ⟨project, _, hproject, ref, _, href, uri, _, huri, remote, _, hremote, _, hend, h⟩
    cases h
    obtain ⟨a1, l1, ha1, hl1, rfl⟩ := readElement_zero_iff.1 hproject
    obtain ⟨b1, a2, l2, hb1, ha2, hl2, rfl⟩ := readElement_succ_iff.1 href
    obtain ⟨b2, a3, l3, hb2, ha3, hl3, rfl⟩ := readElement_succ_iff.1 huri
    obtain ⟨b3, a4, l4, hb3, ha4, hl4, rfl⟩ := readElement_succ_iff.1 hremote
    obtain ⟨b4, hb4, rfl⟩ := readListEnd_eq_ok_iff.1 hend
    exact ⟨_, _, _, _, .mk ha1 hl1 hb1, .mk ha2 hl2 hb2, .mk ha3 hl3 hb3, .mk ha4 hl4 hb4,
      by simp⟩
  · rintro ⟨_, _, _, _, ⟨ha1, hl1, hb1⟩, ⟨ha2, hl2, hb2⟩, ⟨ha3, hl3, hb3⟩, ⟨ha4, hl4, hb4⟩, rfl⟩
    simp only [List.append_assoc]
    exact ⟨_, _, readElement_zero_iff.2 ⟨_, _, ha1, hl1, rfl⟩,
      _, _, readElement_succ_iff.2 ⟨_, _, _, hb1, ha2, hl2, rfl⟩,
      _, _, readElement_succ_iff.2 ⟨_, _, _, hb2, ha3, hl3, rfl⟩,
      _, _, readElement_succ_iff.2 ⟨_, _, _, hb3, ha4, hl4, rfl⟩,
      _, readListEnd_eq_ok_iff.2 ⟨_, hb4, rfl⟩, rfl⟩

theorem parse_eq_ok_iff : parse s = .ok u ↔ IsText u s := by
  simp only [parse, bind_eq_ok_iff, finish_eq_ok_iff, Prod.exists]
  constructor
  · rintro ⟨_, rest, h, rfl, hrest⟩
    unfold read at h
    split at h
    · cases h
    rename_i c r hs
    obtain ⟨a, ha, rfl⟩ := dropSpace_eq_cons hs
    split at h
    · rename_i hc
      subst hc
      obtain ⟨_, _, _, _, hproject, href, huri, hremote, rfl⟩ := readList_eq_ok_iff.1 h
      exact .list ha hproject href huri hremote hrest
    split at h
    · rename_i hc
      subst hc
      obtain ⟨ms, fields, hms, hperm, rfl⟩ := readObject_eq_ok_iff.1 h
      exact .object ha hms hperm hrest
    · cases h
  · intro h
    cases h with
    | list ha hproject href huri hremote hb =>
      refine ⟨u, _, ?_, rfl, hb⟩
      unfold read
      rw [dropSpace_append_cons ha (by decide)]
      simp only
      rw [if_pos (by rfl)]
      exact readList_eq_ok_iff.2 ⟨_, _, _, _, hproject, href, huri, hremote, rfl⟩
    | object ha hms hperm hb =>
      refine ⟨u, _, ?_, rfl, hb⟩
      unfold read
      rw [dropSpace_append_cons ha (by decide)]
      simp only
      rw [if_neg (by decide), if_pos (by rfl)]
      exact readObject_eq_ok_iff.2 ⟨_, _, hms, hperm, rfl⟩

end

/-- A text is read as an update exactly when it has one of the two forms; all others are faults. -/
theorem reads_its_texts (s : Bytes) :
    (∀ u, parse s = .ok u ↔ IsText u s) ∧
      ((∃ fault, parse s = .error fault) ↔ ∀ u, ¬IsText u s) := by
  refine ⟨fun u => parse_eq_ok_iff, ?_⟩
  simp only [← parse_eq_ok_iff]
  cases parse s <;> simp

example : parse (Utf8.encode " [\"p\", \"r\",\"u\" ,\"m\"]\n") = .ok ⟨"p", "r", "u", "m"⟩ := by
  rfl

end Update

end ReplicationQueue
